import CassandraDriver.Request.QueryRequest
import Mathlib.Data.BitVec

/-!
# The case-insensitive hash table

`CaseInsensitiveHashTable<T>` of `hash_table.hpp` keeps its entries in a vector and an index of
pointers to them, sized to a power of two. An entry's bucket is the FNV-1a hash of its name in
lower case; a collision moves to the next bucket. The entries whose names are equal up to case
form a chain through their `next` fields, and the index points to the chain's first entry.

Entries live at addresses of a heap shared by every table, since a `next` pointer may lead out of
its table. Growing the vector moves its entries to new addresses and destroys the old ones;
`reindex` then links the copies again without clearing their `next` fields, and `set_entries`
copies the entries of another table together with their `next` pointers. A copy made by
`set_entries`, as `UserType::copy` does, thus chains into its source: a lookup there returns an
index twice (`getIndices_copy`), and adding to the copy writes into the source.

A read through a pointer to a destroyed entry is undefined behaviour; it is the fault
`useAfterFree` here.
-/

namespace CassandraDriver

namespace CaseInsensitiveHashTable

/-- A table entry: the name the table reads and the `HashTableEntry` fields, `index` and `next`,
the address of the next entry of its chain (`NULL` is `none`). -/
structure Entry where
  name : List UInt8
  index : Nat
  next : Option Nat
  deriving DecidableEq, Repr

/-- What goes wrong: a read or write through a pointer to a destroyed entry, an assertion, or a
walk along a chain longer than the heap, which revisits an entry and never ends. -/
inductive Fault
  | useAfterFree
  | assertFailed
  | diverges
  deriving DecidableEq, Repr

/-- The entries of every table by address; destroyed entries are `none`. -/
structure Heap where
  slots : List (Option Entry)
  deriving DecidableEq, Repr

namespace Heap

/-- Dereference an entry pointer. -/
def read (heap : Heap) (addr : Nat) : Except Fault Entry :=
  match heap.slots[addr]? with
  | some (some entry) => .ok entry
  | _ => .error .useAfterFree

/-- Write through an entry pointer. -/
def write (heap : Heap) (addr : Nat) (entry : Entry) : Except Fault Heap :=
  match heap.slots[addr]? with
  | some (some _) => .ok ⟨heap.slots.set addr (some entry)⟩
  | _ => .error .useAfterFree

/-- Construct an entry at a new address. -/
def alloc (heap : Heap) (entry : Entry) : Nat × Heap :=
  (heap.slots.length, ⟨heap.slots ++ [some entry]⟩)

/-- Destroy the entries at some addresses. -/
def free (heap : Heap) (addrs : List Nat) : Heap :=
  ⟨heap.slots.mapIdx fun i slot => if i ∈ addrs then none else slot⟩

end Heap

/-- `CaseInsensitiveHashTable<T>`: `index_mask_`, `index_` (an address or `NULL` per bucket), the
addresses of the elements of `entries_` in order, and `entries_.capacity()`. -/
structure Table where
  indexMask : Nat
  index : List (Option Nat)
  entries : List Nat
  capacity : Nat
  deriving DecidableEq, Repr

/-! ### Hashing -/

/-- `::tolower` of a `char`, in the C locale: a byte above 127 is a negative `char`, returned as
it is. -/
def tolowerChar (b : UInt8) : Int :=
  if b < 128 then (if 65 ≤ b ∧ b ≤ 90 then b.toNat + 32 else b.toNat) else b.toNat - 256

/-- `hash::fnv1a(data, size, ::tolower)` on a 64-bit platform. -/
def fnv1a (name : List UInt8) : BitVec 64 :=
  name.foldl (fun h b => (h ^^^ BitVec.ofInt 64 (tolowerChar b)) * 0x100000001b3)
    0xcbf29ce484222325

/-- The bucket a name hashes to. -/
def bucket (t : Table) (name : List UInt8) : Nat := (fnv1a name).toNat &&& t.indexMask

/-- `next_pow_2(num)`: from `2`, the powers `1 << i` for `i = 0, 1, …` until one reaches
`num`; `fuel` bounds the rounds. -/
def nextPow2Loop (num : Nat) : Nat → Nat → Nat → Nat
  | 0, next, _ => next
  | fuel + 1, next, i => if next < num then nextPow2Loop num fuel (1 <<< i) (i + 1) else next

/-- `next_pow_2` -/
def nextPow2 (num : Nat) : Nat := nextPow2Loop num (num + 2) 2 0

/-! ### Walks -/

/-- The probe of `get_indices` and `add_index` from bucket `h`: the first bucket that is empty
or holds a name equal up to case, `none` when it comes back to `start`. -/
def probe (heap : Heap) (t : Table) (name : List UInt8) (start : Nat) :
    Nat → Nat → Except Fault (Option Nat)
  | 0, _ => .ok none
  | fuel + 1, h =>
    match t.index.getD h none with
    | none => .ok (some h)
    | some addr => do
      let entry ← heap.read addr
      if iequalsBytes name entry.name then .ok (some h)
      else
        let h := (h + 1) &&& t.indexMask
        if h = start then .ok none else probe heap t name start fuel h

/-- The entries of a chain from an address, following `next`. -/
def chain (heap : Heap) : Nat → Option Nat → Except Fault (List Entry)
  | _, none => .ok []
  | 0, some _ => .error .diverges
  | fuel + 1, some addr => do
    let entry ← heap.read addr
    let rest ← chain heap fuel entry.next
    .ok (entry :: rest)

/-- The last entry of a chain from an address: where `add_index` links a new entry. -/
def chainLast (heap : Heap) : Nat → Nat → Except Fault (Nat × Entry)
  | 0, _ => .error .diverges
  | fuel + 1, addr => do
    let entry ← heap.read addr
    match entry.next with
    | none => .ok (addr, entry)
    | some next => chainLast heap fuel next

/-! ### Operations -/

/-- `get_indices(name)`: a quoted name without its quotes, compared exactly along the chain;
any other name takes the whole chain. -/
def getIndices (heap : Heap) (t : Table) (name : List UInt8) : Except Fault (List Nat) := do
  let (isCaseSensitive, name) ←
    if isQuoted name then
      match substr name 1 (name.length - 2) with
      | some name => pure (true, name)
      | none => throw Fault.assertFailed
    else pure (false, name)
  let h := bucket t name
  match ← probe heap t name h t.index.length h with
  | none => pure []
  | some h =>
    let entries ← chain heap heap.slots.length (t.index.getD h none)
    if isCaseSensitive then pure ((entries.filter fun e => e.name == name).map (·.index))
    else pure (entries.map (·.index))

/-- `add_index(entry)`: into the bucket of its name, after a probe when that is taken, at the
end of the chain of its name when one is found. -/
def addIndex (heap : Heap) (t : Table) (addr : Nat) : Except Fault (Table × Heap) := do
  let entry ← heap.read addr
  let h := bucket t entry.name
  match t.index.getD h none with
  | none => pure ({ t with index := t.index.set h (some addr) }, heap)
  | some _ =>
    match ← probe heap t entry.name h t.index.length h with
    | none => pure (t, heap)
    | some h =>
      match t.index.getD h none with
      | none => pure ({ t with index := t.index.set h (some addr) }, heap)
      | some first =>
        let (last, lastEntry) ← chainLast heap heap.slots.length first
        let heap ← heap.write last { lastEntry with next := some addr }
        pure (t, heap)

/-- `entries_.reserve(capacity)`: a larger capacity moves the entries, copied with their
fields, to new addresses and destroys the old ones. -/
def reserve (heap : Heap) (t : Table) (capacity : Nat) : Except Fault (Table × Heap) := do
  if capacity ≤ t.capacity then pure (t, heap)
  else
    let copy ← t.entries.foldlM (fun (acc : List Nat × Heap) addr => do
      let entry ← acc.2.read addr
      let (addr, heap) := acc.2.alloc entry
      pure (acc.1 ++ [addr], heap)) ([], heap)
    pure ({ t with entries := copy.1, capacity := capacity }, copy.2.free t.entries)

/-- `reset(capacity)`: an empty index of a power of two at least `capacity / 0.75 + 1`
buckets, and room for `capacity` entries. -/
def reset (heap : Heap) (t : Table) (capacity : Nat) : Except Fault (Table × Heap) := do
  let capacity := max capacity t.capacity
  let indexCapacity := nextPow2 (capacity * 4 / 3 + 1)
  let (t, heap) ← reserve heap { t with index := List.replicate indexCapacity none } capacity
  pure ({ t with indexMask := indexCapacity - 1 }, heap)

/-- `reindex()`: every entry gets its position as its index and goes through `add_index`
again; its `next` field is left as it was. -/
def reindex (heap : Heap) (t : Table) : Except Fault (Table × Heap) :=
  t.entries.zipIdx.foldlM (fun (acc : Table × Heap) (addr, i) => do
    let entry ← acc.2.read addr
    let heap ← acc.2.write addr { entry with index := i }
    addIndex heap acc.1 addr) (t, heap)

/-- `resize(new_capacity)` -/
def resize (heap : Heap) (t : Table) (newCapacity : Nat) : Except Fault (Table × Heap) := do
  let (t, heap) ← reset heap t newCapacity
  reindex heap t

/-- `add(entry)`: the vector doubles when full; the entry is copied in, with its `next` field,
gets its position as its index and goes through `add_index`. -/
def add (heap : Heap) (t : Table) (entry : Entry) : Except Fault (Nat × Table × Heap) := do
  let index := t.entries.length
  let (t, heap) ← if index ≥ t.capacity then resize heap t (2 * t.capacity) else pure (t, heap)
  let (addr, heap) := heap.alloc { entry with index := index }
  let (t, heap) ← addIndex heap { t with entries := t.entries ++ [addr] } addr
  pure (index, t, heap)

/-- A table before its constructor runs: `entries_` is a `SmallVector<T, 16>`, which reserves
its 16 inline entries. -/
def unconstructed : Table := ⟨0, [], [], 16⟩

/-- `CaseInsensitiveHashTable(capacity)` -/
def new (heap : Heap) (capacity : Nat) : Except Fault (Table × Heap) :=
  reset heap unconstructed capacity

/-- `set_entries(entries)`: the old entries are destroyed, the index reset for as many entries
as given, and each given entry added, copied with its fields. -/
def setEntries (heap : Heap) (t : Table) (entries : List Nat) : Except Fault (Table × Heap) := do
  let heap := heap.free t.entries
  let (t, heap) ← reset heap { t with entries := [] } entries.length
  entries.foldlM (fun (acc : Table × Heap) addr => do
    let entry ← acc.2.read addr
    let (_, t, heap) ← add acc.2 acc.1 entry
    pure (t, heap)) (t, heap)

/-- `CaseInsensitiveHashTable(entries)`, as `UserType::copy` builds its fields from another
table's entries. -/
def ofEntries (heap : Heap) (entries : List Nat) : Except Fault (Table × Heap) :=
  setEntries heap unconstructed entries

/-- A table of the names "a" and "A", and a copy of it built from its entries as
`UserType::copy` does: looking up "a" in the copy returns the index `1` twice, since the copy's
first entry still links to the source's second, and the source, whose last entry the copy's
`add_index` linked to the copy's second entry, does the same. -/
theorem getIndices_copy :
    (do
      let (source, heap) ← new ⟨[]⟩ 16
      let (_, source, heap) ← add heap source ⟨[97], 0, none⟩
      let (_, source, heap) ← add heap source ⟨[65], 0, none⟩
      let (copy, heap) ← ofEntries heap source.entries
      return (← getIndices heap copy [97], ← getIndices heap source [97], copy.entries.length) :
        Except Fault (List Nat × List Nat × Nat)) = .ok ([0, 1, 1], [0, 1, 1], 2) := by
  decide

end CaseInsensitiveHashTable

end CassandraDriver
