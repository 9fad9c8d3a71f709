import CassandraDriver.Tls.RingBufferInvariant

/-!
# The operations of the ring buffer on its invariant

Each operation of `RingBuffer` keeps `Inv` and acts on the bytes held as a queue: `write` and
`commit` append, `read` takes from the front, `reset` empties, and `index_of` finds a byte
among the first ones. The loops run on the invariant: a round of the loop of `read` reads a
byte at least, a round of `index_of` either ends it or passes a non-empty buffer, a round of
`write` but the first writes a byte at least, and a round of `reset` empties a non-empty
buffer, so the fuel each operation passes is enough.
-/

namespace CassandraDriver.Rb

open LinkedCycle

/-! ### Changes of successors only -/

namespace RingBuffer

/-- `rb'` is `rb` with other successors: the same positions, bytes and heads. -/
structure Relinks (rb rb' : RingBuffer) : Prop where
  length_eq : rb'.length = rb.length
  readHead_eq : rb'.readHead = rb.readHead
  writeHead_eq : rb'.writeHead = rb.writeHead
  fresh_eq : rb'.fresh = rb.fresh
  buffers_eq : ∀ p, rb'.buffers p = { rb.buffers p with next := rb'.nextOf p }

variable {rb rb' rb'' : RingBuffer}

lemma Relinks.refl (rb : RingBuffer) : rb.Relinks rb :=
  ⟨rfl, rfl, rfl, rfl, fun _ => rfl⟩

lemma Relinks.trans (h : rb.Relinks rb') (h' : rb'.Relinks rb'') : rb.Relinks rb'' :=
  ⟨h'.length_eq.trans h.length_eq, h'.readHead_eq.trans h.readHead_eq,
    h'.writeHead_eq.trans h.writeHead_eq, h'.fresh_eq.trans h.fresh_eq,
    fun p => by rw [h'.buffers_eq p, h.buffers_eq p]⟩

lemma relinks_setNext (rb : RingBuffer) (p q : Nat) : rb.Relinks (rb.setNext p q) := by
  refine ⟨rfl, rfl, rfl, rfl, fun r => ?_⟩
  by_cases hr : r = p
  · subst hr
    simp [setNext, nextOf]
  · simp [setNext, nextOf, hr]

lemma Relinks.contents (h : rb.Relinks rb') (live : List Nat) :
    rb'.contents live = rb.contents live :=
  contents_congr fun p _ => by rw [h.buffers_eq p]; rfl

lemma Relinks.normal (h : rb.Relinks rb') (hn : Normal rb) : Normal rb' := by
  unfold Normal
  rw [h.readHead_eq, h.buffers_eq]
  exact hn

/-- The loop of `free_empty` relinks only. -/
lemma relinks_freeEmptyLoop (fuel : Nat) (rb : RingBuffer) (prev cur : Nat) :
    rb.Relinks (freeEmptyLoop fuel rb prev cur) := by
  induction fuel generalizing rb prev cur with
  | zero => exact relinks_setNext ..
  | succ fuel ih =>
    rw [freeEmptyLoop]
    split
    · exact relinks_setNext ..
    · split
      · exact (relinks_setNext ..).trans (ih ..)
      · exact ih ..

lemma relinks_freeEmpty (rb : RingBuffer) : rb.Relinks rb.freeEmpty := by
  dsimp only [freeEmpty]
  split
  · exact .refl rb
  · split
    · exact .refl rb
    · exact relinks_freeEmptyLoop ..

end RingBuffer

/-! ### `free_empty` -/

/-- The loop of `free_empty` over the buffers `rem` from `cur` up to the read head: `head_` is
linked after `prev` and to the read head when it is among them; otherwise `prev` is linked to
the read head. -/
lemma freeEmptyLoop_eq {rb : RingBuffer} {rem : List Nat}
    (hlinks : Links rb.nextOf rem rb.readHead) (hnd : rem.Nodup) (hr : rb.readHead ∉ rem)
    {prev : Nat} (hprev : prev ∉ rem) {fuel : Nat} (hfuel : rem.length ≤ fuel) :
    RingBuffer.freeEmptyLoop fuel rb prev (rem.headD rb.readHead) =
      if head ∈ rem then (rb.setNext prev head).setNext head rb.readHead
      else rb.setNext prev rb.readHead := by
  induction rem generalizing rb prev fuel with
  | nil => cases fuel <;> simp [RingBuffer.freeEmptyLoop]
  | cons d rem ih =>
    obtain ⟨fuel, rfl⟩ : ∃ f, fuel = f + 1 := ⟨fuel - 1, by simp at hfuel; omega⟩
    have hd : d ≠ rb.readHead := fun hdr => hr (hdr ▸ List.mem_cons_self ..)
    obtain ⟨hdnext, hlinks'⟩ := hlinks
    obtain ⟨hdrem, hnd'⟩ := List.nodup_cons.mp hnd
    have hr' : rb.readHead ∉ rem := fun hmem => hr (List.mem_cons_of_mem _ hmem)
    have hprev' : prev ∉ rem := fun hmem => hprev (List.mem_cons_of_mem _ hmem)
    rw [List.headD_cons, RingBuffer.freeEmptyLoop, if_neg hd]
    dsimp only
    by_cases hdh : d = head
    · -- `head_` is kept: linked after `prev`, and the loop goes on from it
      subst hdh
      rw [if_pos rfl, if_pos (List.mem_cons_self ..)]
      have hph : prev ≠ head := fun hph => hprev (hph ▸ List.mem_cons_self ..)
      have hnext : (rb.setNext prev head).nextOf head = rem.headD rb.readHead := by
        rw [RingBuffer.nextOf_setNext, Function.update_of_ne hph.symm, hdnext]
      have hlinks₁ : Links (rb.setNext prev head).nextOf rem (rb.setNext prev head).readHead :=
        hlinks'.congr fun x hx => by
          rw [RingBuffer.nextOf_setNext, Function.update_of_ne (fun hxp : x = prev => hprev' (hxp ▸ hx))]
      rw [hnext, show rb.readHead = (rb.setNext prev head).readHead from rfl,
        ih hlinks₁ hnd' hr' hdrem (by simp at hfuel; omega), if_neg hdrem]
    · -- any other buffer is deleted
      rw [if_neg hdh, hdnext, ih hlinks' hnd' hr' hprev' (by simp at hfuel; omega)]
      simp only [List.mem_cons, Ne.symm hdh, false_or]

/-- The invariant carries over to a relinked buffer whose ring drops buffers of `free`. -/
lemma Inv.of_relinks {rb rb' : RingBuffer} {live free free' : List Nat} (h : Inv rb live free)
    (hrel : rb.Relinks rb') (hsub : free'.Sublist free) (hhead : head ∈ live ++ free')
    (hlinks : Links rb'.nextOf (live ++ free') rb.readHead) : Inv rb' live free' := by
  have hpos : ∀ p, (rb'.buffers p).readPos = (rb.buffers p).readPos ∧
      (rb'.buffers p).writePos = (rb.buffers p).writePos := fun p => by
    rw [hrel.buffers_eq p]
    exact ⟨rfl, rfl⟩
  have hsub' := hsub.append_left live
  exact { nodup := h.nodup.sublist hsub'
          links := hrel.readHead_eq ▸ hlinks
          head_mem := hhead
          lt_fresh := fun p hp => hrel.fresh_eq ▸ h.lt_fresh p (hsub'.subset hp)
          head?_live := hrel.readHead_eq ▸ h.head?_live
          getLast?_live := hrel.writeHead_eq ▸ h.getLast?_live
          readPos_le := fun p hp => by rw [(hpos p).1, (hpos p).2]; exact h.readPos_le p hp
          writePos_le := fun p hp => by rw [(hpos p).2]; exact h.writePos_le p hp
          full := fun p hp => by rw [(hpos p).2]; exact h.full p hp
          readPos_tail := fun p hp => by rw [(hpos p).1]; exact h.readPos_tail p hp
          empty := fun p hp => by rw [(hpos p).1, (hpos p).2]; exact h.empty p (hsub.subset hp)
          normal := hrel.normal h.normal
          length_eq := by rw [hrel.length_eq, hrel.contents]; exact h.length_eq }

/-- `free_empty` keeps of `free` its first buffer, and `head_` when it is among the others. -/
lemma Inv.freeEmpty {rb : RingBuffer} {live free : List Nat} (h : Inv rb live free) :
    ∃ free', Inv rb.freeEmpty live free' := by
  have hrel := RingBuffer.relinks_freeEmpty rb
  dsimp only [RingBuffer.freeEmpty]
  have hchild := h.nextOf_writeHead
  split
  · exact ⟨free, h⟩
  rename_i hc
  obtain ⟨c, free₁, rfl⟩ : ∃ c free₁, free = c :: free₁ := by
    cases free with
    | nil => exact absurd (.inr hchild) hc
    | cons c free₁ => exact ⟨c, free₁, rfl⟩
  rw [hchild, List.headD_cons]
  have hlinks := h.links
  obtain ⟨hlive, hcnext, hlinks₁⟩ : Links rb.nextOf live c ∧ rb.nextOf c = free₁.headD rb.readHead ∧
      Links rb.nextOf free₁ rb.readHead := by
    rw [links_append] at hlinks
    exact ⟨hlinks.1, hlinks.2⟩
  split
  · exact ⟨c :: free₁, h⟩
  rename_i hcur
  rw [hcnext]
  have hnd := h.nodup
  rw [List.nodup_append] at hnd
  obtain ⟨hndl, hndf, hdisj⟩ := hnd
  obtain ⟨hcf, hndf₁⟩ := List.nodup_cons.mp hndf
  have hr : rb.readHead ∉ free₁ := fun hmem =>
    hdisj _ h.readHead_mem _ (List.mem_cons_of_mem _ hmem) rfl
  have hlen : free₁.length ≤ rb.fresh := by
    have := h.length_le_fresh
    simp at this
    omega
  rw [freeEmptyLoop_eq hlinks₁ hndf₁ hr hcf hlen]
  have hnotc : ∀ x ∈ live, x ≠ c := fun x hx hxc =>
    hdisj _ hx _ (List.mem_cons_self ..) hxc
  split
  · -- `head_` stays after the first free buffer
    rename_i hhead
    have hch : c ≠ head := fun hch => hcf (hch ▸ hhead)
    have hnoth : ∀ x ∈ live, x ≠ head := fun x hx hxh =>
      hdisj _ hx _ (List.mem_cons_of_mem _ hhead) hxh
    refine ⟨[c, head], h.of_relinks ((RingBuffer.relinks_setNext ..).trans
      (RingBuffer.relinks_setNext ..)) (List.Sublist.cons_cons c (List.singleton_sublist.mpr hhead))
      (by simp) ?_⟩
    rw [links_append]
    simp only [RingBuffer.nextOf_setNext]
    refine ⟨hlive.congr fun x hx => ?_, ?_, ?_, trivial⟩
    · rw [Function.update_of_ne (hnoth x hx), Function.update_of_ne (hnotc x hx)]
    · rw [Function.update_of_ne hch, Function.update_self]
      rfl
    · rw [Function.update_self]
      rfl
  · -- the first free buffer is linked to the read head
    rename_i hhead
    refine ⟨[c], h.of_relinks (RingBuffer.relinks_setNext ..)
      (List.Sublist.cons_cons c (List.nil_sublist _)) ?_ ?_⟩
    · have hmem := h.head_mem
      simp only [List.mem_append, List.mem_cons] at hmem ⊢
      tauto
    · rw [links_append]
      simp only [RingBuffer.nextOf_setNext]
      refine ⟨hlive.congr fun x hx => Function.update_of_ne (hnotc x hx) .., ?_, trivial⟩
      rw [Function.update_self]
      rfl

/-! ### `read` -/

section Read

variable {rb : RingBuffer} {live free : List Nat}

/-- Every buffer of `live` but the last holds a byte: it is full, and read from zero unless it
is the normal read head. -/
lemma Shape.bytes_ne_nil_of_mem_dropLast (h : Shape rb live free) (hn : Normal rb) {p : Nat}
    (hp : p ∈ live.dropLast) : (rb.buffers p).bytes ≠ [] := by
  have hfull := h.full p hp
  have hle := h.readPos_le p (List.mem_of_mem_dropLast hp)
  have := bufferLength_pos
  rw [Ne, Buffer.bytes_eq_nil_iff]
  intro hge
  by_cases hpr : p = rb.readHead
  · subst hpr
    have h0 := hn (le_antisymm hle hge)
    omega
  · obtain ⟨rest, hlive⟩ := h.live_eq_cons
    have hp' : p ∈ live.tail := by
      rw [hlive] at hp ⊢
      rcases List.mem_cons.mp (List.dropLast_subset _ hp) with hpr' | hp'
      · exact absurd hpr' hpr
      · exact hp'
    have h0 := h.readPos_tail p hp'
    omega

/-- A normal read head holds a byte whenever the buffer does. -/
lemma Shape.bytes_readHead_ne_nil (h : Shape rb live free) (hn : Normal rb)
    (hq : rb.contents live ≠ []) : (rb.buffers rb.readHead).bytes ≠ [] := by
  obtain ⟨rest, hlive⟩ := h.live_eq_cons
  cases rest with
  | nil => simpa [hlive] using hq
  | cons s rest =>
    exact h.bytes_ne_nil_of_mem_dropLast hn
      (by rw [hlive, List.dropLast_cons_cons]; exact List.mem_cons_self ..)

/-- The loop of `read` takes `expected - bytesRead` bytes from the front: `left` or all that
is held, whichever is fewer. -/
lemma readLoop_spec (out : Bool) (expected : Nat) {fuel bytesRead left : Nat}
    {copied : List UInt8} (h : Shape rb live free) (hn : Normal rb)
    (hmin : min (rb.contents live).length left = expected - bytesRead)
    (hle : bytesRead ≤ expected) (hfuel : expected - bytesRead ≤ fuel) {n : Nat}
    {copied' : List UInt8} {rb' : RingBuffer}
    (hrun : RingBuffer.readLoop out expected fuel bytesRead left copied rb = (n, copied', rb')) :
    n = expected ∧
      copied' = copied ++ (if out then (rb.contents live).take (expected - bytesRead) else []) ∧
      rb'.length = rb.length ∧ ∃ live' free', Shape rb' live' free' ∧ Normal rb' ∧
        rb'.contents live' = (rb.contents live).drop (expected - bytesRead) := by
  induction fuel generalizing bytesRead left copied rb live free with
  | zero =>
    rw [RingBuffer.readLoop] at hrun
    obtain ⟨hbn, rfl, rfl⟩ : bytesRead = n ∧ copied = copied' ∧ rb = rb' := by
      simpa using hrun
    refine ⟨by omega, ?_, rfl, live, free, h, hn, ?_⟩ <;>
      simp [show expected - bytesRead = 0 by omega]
  | succ fuel ih =>
    rw [RingBuffer.readLoop] at hrun
    split at hrun
    · rename_i hlt
      dsimp only at hrun
      set b := rb.buffers rb.readHead with hb
      set avail := min (b.writePos - b.readPos) left with havail
      set q := rb.contents live with hq
      -- the read head is the front of the bytes held, and holds one at least
      have hne : b.bytes ≠ [] := h.bytes_readHead_ne_nil hn (by
        intro hnil
        rw [← hq] at hnil
        rw [hnil] at hmin
        simp at hmin
        omega)
      have hlen : b.bytes.length = b.writePos - b.readPos := by simp [Buffer.bytes]
      have havail_le : avail ≤ b.bytes.length := by omega
      have hqlen : b.bytes.length ≤ q.length := by
        obtain ⟨rest, hlive⟩ := h.live_eq_cons
        simp [hq, hlive, b]
      have havail_pos : 0 < avail := by
        have : 0 < b.bytes.length := List.length_pos_of_ne_nil hne
        omega
      have hfront : q.take avail = bytesAt b.data b.readPos avail := by
        obtain ⟨rest, hlive⟩ := h.live_eq_cons
        rw [hq, hlive, RingBuffer.contents_cons, List.take_append_of_le_length havail_le,
          Buffer.bytes, take_bytesAt, min_eq_left (by omega)]
      obtain ⟨hshape₁, hcontents₁⟩ := h.advanceRead havail_le
      obtain ⟨live₂, free₂, hshape₂, hn₂, hcontents₂⟩ := hshape₁.tryMoveReadHead
      have hq₂ : (RingBuffer.tryMoveReadHead (rb.modify rb.readHead fun b =>
          { b with readPos := b.readPos + avail })).contents live₂ = q.drop avail := by
        rw [hcontents₂, hcontents₁]
      have hmin₂ : min (q.drop avail).length (left - avail) = expected - (bytesRead + avail) := by
        rw [List.length_drop]
        omega
      obtain ⟨hexp, hcopied, hlength, live', free', hshape', hn', hcontents'⟩ :=
        ih hshape₂ hn₂ (hq₂ ▸ hmin₂) (by omega) (by omega) hrun
      refine ⟨hexp, ?_, by simpa using hlength, live', free', hshape', hn', ?_⟩
      · rw [hcopied, hq₂]
        cases out
        · simp
        · simp only [if_true, List.append_assoc, ← hfront]
          rw [show expected - bytesRead = avail + (expected - (bytesRead + avail)) by omega,
            List.take_add]
      · rw [hcontents', hq₂, List.drop_drop]
        congr 1
        omega
    · rename_i hge
      obtain ⟨hbn, rfl, rfl⟩ : bytesRead = n ∧ copied = copied' ∧ rb = rb' := by
        simpa using hrun
      refine ⟨by omega, ?_, rfl, live, free, h, hn, ?_⟩ <;>
        simp [show expected - bytesRead = 0 by omega]

/-- `read` hands out the first `min size length` bytes and drops them. -/
theorem Inv.read (h : Inv rb live free) (out : Bool) (size : Nat) :
    (rb.read out size).1 = min size (rb.contents live).length ∧
      (rb.read out size).2.1 =
        (if out then (rb.contents live).take (min size (rb.contents live).length) else []) ∧
      ∃ live' free', Inv (rb.read out size).2.2 live' free' ∧
        (rb.read out size).2.2.contents live' =
          (rb.contents live).drop (min size (rb.contents live).length) := by
  have hexp : (if rb.length > size then size else rb.length) =
      min size (rb.contents live).length := by
    rw [← h.length_eq]
    split <;> omega
  dsimp only [RingBuffer.read]
  rw [hexp]
  generalize hrun : RingBuffer.readLoop out (min size (rb.contents live).length)
    (min size (rb.contents live).length + 1) 0 size [] rb = r
  obtain ⟨n, copied, rb'⟩ := r
  obtain ⟨rfl, rfl, hlength, live', free', hshape', hn', hcontents'⟩ :=
    readLoop_spec out _ h.toShape h.normal (by omega) (Nat.zero_le _) (by omega) hrun
  simp only [Nat.sub_zero] at hcontents'
  refine ⟨rfl, by simp, ?_⟩
  have hinv : Inv { rb' with length := rb'.length - min size (rb.contents live).length } live'
      free' :=
    { toShape := hshape'.setLength _, normal := hn',
      length_eq := by
        show rb'.length - _ = (rb'.contents live').length
        rw [hlength, h.length_eq, hcontents', List.length_drop] }
  obtain ⟨free'', hinv'⟩ := hinv.freeEmpty
  exact ⟨live', free'', hinv', by
    rw [(RingBuffer.relinks_freeEmpty _).contents]
    exact hcontents'⟩

end Read

/-! ### `index_of` -/

section IndexOf

variable {rb : RingBuffer} {live free : List Nat}

lemma indexOfLoop_of_le {delim : UInt8} {max bytesRead : Nat} (h : max ≤ bytesRead)
    (fuel left current : Nat) : rb.indexOfLoop delim max fuel bytesRead left current = max := by
  cases fuel with
  | zero => rfl
  | succ fuel =>
    rw [RingBuffer.indexOfLoop, if_neg (by omega)]

/-- `left` bytes of a buffer holding `B` and then `R`: a part of `B`, then a part of `R`. -/
lemma take_append_eq {α : Type} (B R : List α) (left : Nat) :
    (B ++ R).take left = B.take (min B.length left) ++ R.take (left - min B.length left) := by
  rw [List.take_append]
  rcases Nat.le_total B.length left with hle | hle
  · rw [min_eq_left hle, List.take_of_length_le hle, List.take_length]
  · rw [min_eq_right hle, Nat.sub_self, List.take_zero, Nat.sub_eq_zero_of_le hle, List.take_zero]

/-- The outer loop of `index_of` from the buffer `c` of the chain `c :: cs`, with `bytesRead`
bytes passed and `left` to go: it finds the first `delim` among the next `left` bytes. -/
lemma indexOfLoop_spec (delim : UInt8) {max z : Nat} :
    ∀ {cs : List Nat} {c fuel bytesRead left : Nat}, Links rb.nextOf (c :: cs) z →
      (∀ p ∈ (c :: cs).dropLast,
        (rb.buffers p).writePos = bufferLength ∧ (rb.buffers p).bytes ≠ []) →
      (∀ p ∈ c :: cs, (rb.buffers p).readPos ≤ (rb.buffers p).writePos) →
      max = bytesRead + min left (rb.contents (c :: cs)).length → max - bytesRead < fuel →
      rb.indexOfLoop delim max fuel bytesRead left c =
        bytesRead + ((rb.contents (c :: cs)).take left).findIdx (· == delim) := by
  intro cs c fuel
  induction fuel generalizing cs c with
  | zero => intro bytesRead left _ _ _ _ hfuel; omega
  | succ fuel ih =>
    intro bytesRead left hlinks hfull hpos hmax hfuel
    set R := rb.contents (c :: cs) with hR
    by_cases hlt : bytesRead < max
    swap
    · -- the loop has ended: no byte was left to look at
      rw [indexOfLoop_of_le (by omega)]
      have hnil : R.take left = [] := by
        rw [← List.length_eq_zero_iff, List.length_take]
        omega
      rw [hnil, List.findIdx_nil]
      omega
    rw [RingBuffer.indexOfLoop, if_pos hlt]
    dsimp only
    set b := rb.buffers c with hb
    have hB : b.bytes.length = b.writePos - b.readPos := by simp [Buffer.bytes]
    set avail := min (b.writePos - b.readPos) left with havail
    have hscan : RingBuffer.scan b.data delim b.readPos avail =
        (b.bytes.take avail).findIdx (· == delim) := by
      rw [scan_eq_findIdx, Buffer.bytes, take_bytesAt, min_eq_left (by omega)]
    have htake : R.take left = b.bytes.take avail ++ (rb.contents cs).take (left - avail) := by
      rw [hR, RingBuffer.contents_cons, take_append_eq, hB]
    have hlen : (b.bytes.take avail).length = avail := by
      rw [List.length_take, hB]
      omega
    have hRlen : R.length = b.bytes.length + (rb.contents cs).length := by
      rw [hR, RingBuffer.contents_cons, List.length_append]
    have hfind : (b.bytes.take avail).findIdx (· == delim) ≤ (b.bytes.take avail).length :=
      List.findIdx_le_length
    rw [hscan, htake, List.findIdx_append, hlen]
    split
    · -- `delim` is in this buffer
      rename_i hoff
      rw [if_pos (by omega)]
    rename_i hoff
    have hoff : (b.bytes.take avail).findIdx (· == delim) = avail := not_not.mp hoff
    rw [hoff, if_neg (lt_irrefl _)]
    by_cases hfin : max ≤ bytesRead + avail
    · -- the loop ends after this buffer: the bytes looked at are all that were to be
      have hnil : (rb.contents cs).take (left - avail) = [] := by
        rw [← List.length_eq_zero_iff, List.length_take]
        omega
      rw [indexOfLoop_of_le hfin, hnil, List.findIdx_nil]
      omega
    · -- the whole buffer was looked at, and the loop goes on with the next one
      cases cs with
      | nil =>
        simp only [RingBuffer.contents_nil, List.length_nil] at hRlen
        omega
      | cons c' cs =>
        have hfullc : b.writePos = bufferLength ∧ b.bytes ≠ [] := hfull c (by simp)
        have hposc : b.readPos ≤ b.writePos := hpos c (List.mem_cons_self ..)
        have havail' : avail = b.bytes.length := by omega
        have hnext : b.readPos + avail = bufferLength := by omega
        have hc' : b.next = c' := hlinks.1
        have hpos_b : 0 < b.bytes.length := List.length_pos_of_ne_nil hfullc.2
        rw [if_pos hnext, hc', ih hlinks.2 (fun p hp => hfull p (by
            rw [List.dropLast_cons_cons]; exact List.mem_cons_of_mem _ hp))
          (fun p hp => hpos p (List.mem_cons_of_mem _ hp)) (by omega) (by omega)]
        omega

/-- `index_of` finds the first `delim` among the first `limit` bytes held, or returns how many
bytes it looked at. -/
theorem Inv.indexOf (h : Inv rb live free) (delim : UInt8) (limit : Nat) :
    rb.indexOf delim limit = ((rb.contents live).take limit).findIdx (· == delim) := by
  obtain ⟨rest, hlive⟩ := h.live_eq_cons
  have hlinks := h.links
  rw [links_append, hlive] at hlinks
  have hmax : (if rb.length > limit then limit else rb.length) =
      0 + min limit (rb.contents live).length := by
    rw [← h.length_eq]
    split <;> omega
  rw [RingBuffer.indexOf, hmax, hlive, indexOfLoop_spec delim hlinks.1
    (fun p hp => ⟨h.full p (hlive ▸ hp), h.bytes_ne_nil_of_mem_dropLast h.normal (hlive ▸ hp)⟩)
    (fun p hp => h.readPos_le p (hlive ▸ hp)) (by rw [← hlive]) (by omega), Nat.zero_add]

end IndexOf

/-! ### `write`, `peek_writable` and `commit` -/

section Write

variable {rb : RingBuffer} {live free : List Nat}

/-- A full write head moves on to an empty buffer, linked in first if need be; the bytes held
stay. -/
lemma Inv.nextWriteHead (h : Inv rb live free)
    (hfull : (rb.buffers rb.writeHead).writePos = bufferLength) :
    ∃ live' free', Inv rb.tryAllocateForWrite.advanceWriteHead.tryMoveReadHead live' free' ∧
      rb.tryAllocateForWrite.advanceWriteHead.tryMoveReadHead.contents live' = rb.contents live ∧
      (rb.tryAllocateForWrite.advanceWriteHead.tryMoveReadHead.buffers
        rb.tryAllocateForWrite.advanceWriteHead.tryMoveReadHead.writeHead).writePos = 0 := by
  obtain ⟨f, free', hs⟩ := h.toShape.tryAllocateForWrite hfull
  set rb₃ := rb.tryAllocateForWrite with hrb₃
  have hkeep : ∀ p ∈ live, rb₃.buffers p = { rb.buffers p with next := rb₃.nextOf p } :=
    fun p hp => RingBuffer.tryAllocateForWrite_buffers_of_ne fun hpf =>
      h.fresh_not_mem (hpf ▸ List.mem_append_left _ hp)
  have hw₃ : rb₃.writeHead = rb.writeHead := RingBuffer.tryAllocateForWrite_writeHead
  have hfull₃ : (rb₃.buffers rb₃.writeHead).writePos = bufferLength := by
    rw [hw₃, hkeep _ h.writeHead_mem]
    exact hfull
  have hs₄ := hs.moveWriteHead hfull₃
  rw [hw₃] at hs₄
  set rb₄ : RingBuffer := rb₃.advanceWriteHead with hrb₄
  have hw₄ : rb₄.writeHead = rb₃.nextOf rb.writeHead := by rw [hrb₄, RingBuffer.advanceWriteHead, hw₃]
  have hn₄ : Normal rb₄ := by
    change (rb₃.buffers rb₃.readHead).readPos = (rb₃.buffers rb₃.readHead).writePos →
      (rb₃.buffers rb₃.readHead).readPos = 0
    rw [RingBuffer.tryAllocateForWrite_readHead, hkeep _ h.readHead_mem]
    exact h.normal
  have hf : rb₃.nextOf rb.writeHead = f := by
    have := hs.nextOf_writeHead
    rwa [hw₃] at this
  have hempty := hs.empty f (List.mem_cons_self ..)
  have hcontents : rb₄.contents (live ++ [f]) = rb.contents live := by
    have hlive : rb₄.contents live = rb.contents live :=
      RingBuffer.contents_congr fun p hp => by
        change (rb₃.buffers p).bytes = (rb.buffers p).bytes
        rw [hkeep p hp]
        rfl
    have hfnil : (rb₄.buffers f).bytes = [] := (Buffer.bytes_eq_nil_iff _).mpr (by
      show (rb₃.buffers f).writePos ≤ (rb₃.buffers f).readPos
      omega)
    simp [hlive, hfnil]
  rw [RingBuffer.tryMoveReadHead_of_normal hn₄]
  refine ⟨live ++ [f], free', ⟨?_, hn₄, ?_⟩, hcontents, by rw [hw₄, hf]; exact hempty.2⟩
  · rw [hrb₄, RingBuffer.advanceWriteHead, hw₃]
    exact hs₄
  rw [hcontents, ← h.length_eq]
  exact RingBuffer.tryAllocateForWrite_length

/-- A round of `write` stores `toWrite` bytes at the write head, which has room for them. -/
lemma Inv.writeChunk (h : Inv rb live free) (data : List UInt8) (offset toWrite : Nat)
    (hroom : (rb.buffers rb.writeHead).writePos + toWrite ≤ bufferLength)
    (hdata : offset + toWrite ≤ data.length) :
    Inv (rb.writeChunk data offset toWrite) live free ∧
      (rb.writeChunk data offset toWrite).contents live =
        rb.contents live ++ (data.drop offset).take toWrite := by
  obtain ⟨hs, hn⟩ := h.toShape.modifyWriteHead (g := fun b =>
      { b with data := copyInto b.data b.writePos data offset toWrite,
               writePos := b.writePos + toWrite })
    (fun _ => rfl) (fun _ => rfl) (Nat.le_add_right _ _) hroom
  have hc := h.toShape.contents_modifyWriteHead (g := fun b =>
      { b with data := copyInto b.data b.writePos data offset toWrite,
               writePos := b.writePos + toWrite })
    rfl (Nat.le_add_right _ _) fun i hi => by
      simp only [copyInto]
      rw [if_neg (by omega)]
  simp only [Nat.add_sub_cancel_left, bytesAt_copyInto _ _ _ hdata] at hc
  have hc' : (rb.writeChunk data offset toWrite).contents live =
      rb.contents live ++ (data.drop offset).take toWrite := hc
  have hl : (rb.writeChunk data offset toWrite).length = rb.length + toWrite := rfl
  refine ⟨⟨hs.setLength _, hn h.normal, ?_⟩, hc'⟩
  rw [hl, hc', List.length_append, ← h.length_eq, List.length_take, List.length_drop]
  omega

lemma writeLoop_zero (data : List UInt8) (fuel offset : Nat) (rb : RingBuffer) :
    RingBuffer.writeLoop data fuel offset 0 rb = rb := by
  cases fuel <;> rfl

/-- The loop of `write` appends the bytes of `data` from `offset`. A round that fills the write
head moves on to an empty buffer, so only the first round can write nothing. -/
lemma writeLoop_spec (data : List UInt8) (fuel offset left : Nat) (h : Inv rb live free)
    (hleft : offset + left = data.length)
    (hfuel : 0 < left →
      left + (if (rb.buffers rb.writeHead).writePos = bufferLength then 1 else 0) ≤ fuel) :
    ∃ live' free', Inv (RingBuffer.writeLoop data fuel offset left rb) live' free' ∧
      (RingBuffer.writeLoop data fuel offset left rb).contents live' =
        rb.contents live ++ data.drop offset := by
  induction fuel generalizing offset left rb live free with
  | zero =>
    obtain rfl : left = 0 := by
      by_contra hne
      have := hfuel (Nat.pos_of_ne_zero hne)
      omega
    refine ⟨live, free, h, ?_⟩
    simp [RingBuffer.writeLoop, show data.length ≤ offset by omega]
  | succ fuel ih =>
    rcases Nat.eq_zero_or_pos left with rfl | hpos
    · refine ⟨live, free, by rwa [writeLoop_zero], ?_⟩
      simp [writeLoop_zero, show data.length ≤ offset by omega]
    rw [RingBuffer.writeLoop, if_pos hpos]
    dsimp only
    set toWrite := min left (bufferLength - (rb.buffers rb.writeHead).writePos) with htoWrite
    have hwle := h.writePos_le _ h.writeHead_mem
    obtain ⟨hinv₁, hc₁⟩ := h.writeChunk data offset toWrite
      (by omega) (by omega)
    -- the bytes from `offset` are those of this round, then the rest
    have hsplit : rb.contents live ++ data.drop offset =
        rb.contents live ++ (data.drop offset).take toWrite ++ data.drop (offset + toWrite) := by
      rw [List.append_assoc, ← List.drop_drop, List.take_append_drop]
    split
    · -- bytes are left: the write head is full and moves on to an empty buffer
      rename_i hrest
      have hfull : ((rb.writeChunk data offset toWrite).buffers
          (rb.writeChunk data offset toWrite).writeHead).writePos = bufferLength := by
        simp only [RingBuffer.writeChunk, RingBuffer.modify_writeHead,
          RingBuffer.modify_buffers_self]
        omega
      have hfuel' : left - toWrite ≤ fuel := by
        have := hfuel hpos
        by_cases hf0 : (rb.buffers rb.writeHead).writePos = bufferLength <;>
          simp only [hf0, if_true, if_false] at this <;> omega
      obtain ⟨live₂, free₂, hinv₂, hc₂, hempty₂⟩ := hinv₁.nextWriteHead hfull
      obtain ⟨live', free', hinv', hc'⟩ :=
        ih (offset + toWrite) (left - toWrite) hinv₂ (by omega) fun _ => by
        rw [hempty₂, if_neg (by have := bufferLength_pos; omega)]
        omega
      exact ⟨live', free', hinv', by rw [hc', hc₂, hc₁, hsplit]⟩
    · -- the bytes are all written
      obtain ⟨live', free', hinv', hc'⟩ :=
        ih (offset + toWrite) (left - toWrite) hinv₁ (by omega) fun hlt => by omega
      exact ⟨live', free', hinv', by rw [hc', hc₁, hsplit]⟩

/-- `write` appends its bytes. -/
theorem Inv.write (h : Inv rb live free) (data : List UInt8) :
    ∃ live' free', Inv (rb.write data) live' free' ∧
      (rb.write data).contents live' = rb.contents live ++ data := by
  obtain ⟨live', free', hinv', hc'⟩ := writeLoop_spec data (data.length + 1) 0 data.length h
    (Nat.zero_add _) fun _ => by split <;> omega
  exact ⟨live', free', hinv', by rw [RingBuffer.write, hc', List.drop_zero]⟩

/-- `peek_writable` offers at most the room after the write position. -/
lemma peekWritable_le (rb : RingBuffer) (size : Nat) :
    rb.peekWritable size ≤ bufferLength - (rb.buffers rb.writeHead).writePos := by
  dsimp only [RingBuffer.peekWritable]
  split <;> omega

/-- The caller's stores through the pointer `peek_writable` returns change no byte held. -/
lemma Inv.storeWritable (h : Inv rb live free) (bytes : List UInt8) :
    Inv (rb.storeWritable bytes) live free ∧
      (rb.storeWritable bytes).contents live = rb.contents live := by
  have hwle := h.writePos_le _ h.writeHead_mem
  obtain ⟨hs, hn⟩ := h.toShape.modifyWriteHead
    (g := fun b => { b with data := copyInto b.data b.writePos bytes 0 bytes.length })
    (fun _ => rfl) (fun _ => rfl) le_rfl hwle
  have hc := h.toShape.contents_modifyWriteHead
    (g := fun b => { b with data := copyInto b.data b.writePos bytes 0 bytes.length })
    rfl le_rfl fun i hi => by
      simp only [copyInto]
      rw [if_neg (by omega)]
  simp only [Nat.sub_self, bytesAt_zero, List.append_nil] at hc
  have hc' : (rb.storeWritable bytes).contents live = rb.contents live := hc
  exact ⟨⟨hs, hn h.normal, by rw [hc']; exact h.length_eq⟩, hc'⟩

/-- The bytes the caller stored are those at the write position. -/
lemma bytesAt_storeWritable (rb : RingBuffer) (bytes : List UInt8) :
    bytesAt ((rb.storeWritable bytes).buffers (rb.storeWritable bytes).writeHead).data
      ((rb.storeWritable bytes).buffers (rb.storeWritable bytes).writeHead).writePos
      bytes.length = bytes := by
  simp [RingBuffer.storeWritable, bytesAt_copyInto]

/-- `commit(m)` after storing `m` bytes, at most what `peek_writable` offered, appends them. -/
theorem Inv.commit (h : Inv rb live free) {size : Nat} {bytes : List UInt8}
    (hbytes : bytes.length ≤ rb.peekWritable size) :
    ∃ live' free', Inv ((rb.storeWritable bytes).commit bytes.length) live' free' ∧
      ((rb.storeWritable bytes).commit bytes.length).contents live' =
        rb.contents live ++ bytes := by
  have hwle := h.writePos_le _ h.writeHead_mem
  have hroom : (rb.buffers rb.writeHead).writePos + bytes.length ≤ bufferLength := by
    have := peekWritable_le rb size
    omega
  obtain ⟨hinv₁, hc₁⟩ := h.storeWritable bytes
  set rb₁ := rb.storeWritable bytes with hrb₁
  have hw₁ : (rb₁.buffers rb₁.writeHead).writePos = (rb.buffers rb.writeHead).writePos := by
    simp [rb₁, RingBuffer.storeWritable]
  -- `write_pos_` moves past the stored bytes
  obtain ⟨hs₂, hn₂⟩ := hinv₁.toShape.modifyWriteHead
    (g := fun b => { b with writePos := b.writePos + bytes.length })
    (fun _ => rfl) (fun _ => rfl) (Nat.le_add_right _ _) (by simp only; omega)
  have hc₂ := hinv₁.toShape.contents_modifyWriteHead
    (g := fun b => { b with writePos := b.writePos + bytes.length })
    rfl (Nat.le_add_right _ _) fun _ _ => rfl
  have hstored : bytesAt (rb₁.buffers rb₁.writeHead).data (rb₁.buffers rb₁.writeHead).writePos
      bytes.length = bytes := bytesAt_storeWritable rb bytes
  rw [Nat.add_sub_cancel_left, hstored] at hc₂
  set rb₂ := rb₁.modify rb₁.writeHead fun b => { b with writePos := b.writePos + bytes.length }
    with hrb₂
  have hinv₃ : Inv { rb₂ with length := rb₂.length + bytes.length } live free :=
    ⟨hs₂.setLength _, hn₂ hinv₁.normal, by
      show rb₁.length + bytes.length = (rb₂.contents live).length
      rw [hc₂, hc₁, List.length_append, ← h.length_eq]
      rfl⟩
  have hw₃ : (rb₂.buffers rb₂.writeHead).writePos =
      (rb.buffers rb.writeHead).writePos + bytes.length := by
    simp [rb₂, hw₁]
  dsimp only [RingBuffer.commit]
  by_cases hfull : (rb.buffers rb.writeHead).writePos + bytes.length = bufferLength
  · -- the write head is full and moves on
    obtain ⟨live', free', hinv', hc', -⟩ := hinv₃.nextWriteHead (by rw [← hfull]; exact hw₃)
    have hcond : ({ rb₂ with length := rb₂.length + bytes.length }.tryAllocateForWrite.buffers
        { rb₂ with length := rb₂.length + bytes.length }.tryAllocateForWrite.writeHead).writePos =
          bufferLength := by
      rw [RingBuffer.tryAllocateForWrite_writeHead, RingBuffer.tryAllocateForWrite_buffers_of_ne
        fun hf => hinv₃.fresh_not_mem (hf ▸ List.mem_append_left _ hinv₃.writeHead_mem)]
      rw [← hfull]
      exact hw₃
    rw [if_pos hcond]
    exact ⟨live', free', hinv', by rw [hc']; exact hc₂.trans (by rw [hc₁])⟩
  · -- the write head keeps room
    have hne : ({ rb₂ with length := rb₂.length + bytes.length }.buffers
        { rb₂ with length := rb₂.length + bytes.length }.writeHead).writePos ≠ bufferLength := by
      change (rb₂.buffers rb₂.writeHead).writePos ≠ bufferLength
      rw [hw₃]
      exact hfull
    rw [RingBuffer.tryAllocateForWrite_of_ne hne, if_neg hne]
    exact ⟨live, free, hinv₃, hc₂.trans (by rw [hc₁])⟩

end Write

/-! ### `reset` -/

section Reset

variable {rb : RingBuffer} {live free : List Nat}

/-- An empty buffer: both heads on `z`, and every buffer of the ring `z :: others` empty. -/
lemma Inv.of_empty {z : Nat} {others : List Nat} (hnd : (z :: others).Nodup)
    (hlinks : Links rb.nextOf (z :: others) z) (hhead : head ∈ z :: others)
    (hfresh : ∀ p ∈ z :: others, p < rb.fresh) (hr : rb.readHead = z) (hw : rb.writeHead = z)
    (hzero : ∀ p ∈ z :: others, (rb.buffers p).readPos = 0 ∧ (rb.buffers p).writePos = 0)
    (hlen : rb.length = 0) : Inv rb [z] others := by
  have hz := hzero z (List.mem_cons_self ..)
  exact { nodup := hnd
          links := hr ▸ hlinks
          head_mem := hhead
          lt_fresh := hfresh
          head?_live := by rw [hr]; rfl
          getLast?_live := by rw [hw]; rfl
          readPos_le := fun p hp => by rw [List.mem_singleton.mp hp, hz.1, hz.2]
          writePos_le := fun p hp => by rw [List.mem_singleton.mp hp, hz.2]; exact Nat.zero_le _
          full := by simp
          readPos_tail := by simp
          empty := fun p hp => hzero p (List.mem_cons_of_mem _ hp)
          normal := fun _ => by rw [hr]; exact hz.1
          length_eq := by
            rw [hlen, RingBuffer.contents_cons, RingBuffer.contents_nil, List.append_nil,
              (Buffer.bytes_eq_nil_iff _).mpr (by rw [hz.1, hz.2])]
            rfl }

lemma length_le_length_contents {cs : List Nat} (h : ∀ c ∈ cs, (rb.buffers c).bytes ≠ []) :
    cs.length ≤ (rb.contents cs).length := by
  induction cs with
  | nil => exact Nat.le_refl _
  | cons c cs ih =>
    have hc := List.length_pos_of_ne_nil (h c (List.mem_cons_self ..))
    have := ih fun c' hc' => h c' (List.mem_cons_of_mem _ hc')
    simp only [List.length_cons, RingBuffer.contents_cons, List.length_append]
    omega

/-- The loop of `reset` over the buffers `cs` from the read head, each holding bytes, up to `z`,
which holds none once they are emptied: it empties them, and the read head stops at `z`. -/
lemma resetLoop_spec {cs : List Nat} {z : Nat} (fuel : Nat) (hnd : cs.Nodup)
    (hlinks : Links rb.nextOf cs z) (hhead : rb.readHead = cs.headD z)
    (hne : ∀ c ∈ cs, (rb.buffers c).readPos < (rb.buffers c).writePos)
    (hz : z ∉ cs → (rb.buffers z).readPos = (rb.buffers z).writePos)
    (hfuel : cs.length ≤ fuel) :
    (RingBuffer.resetLoop fuel rb).readHead = z ∧
      (RingBuffer.resetLoop fuel rb).writeHead = rb.writeHead ∧
      (RingBuffer.resetLoop fuel rb).fresh = rb.fresh ∧
      (RingBuffer.resetLoop fuel rb).length = rb.length - (rb.contents cs).length ∧
      (RingBuffer.resetLoop fuel rb).nextOf = rb.nextOf ∧
      ∀ p, (RingBuffer.resetLoop fuel rb).buffers p =
        if p ∈ cs then { rb.buffers p with readPos := 0, writePos := 0 } else rb.buffers p := by
  induction cs generalizing rb fuel with
  | nil =>
    have hstop : RingBuffer.resetLoop fuel rb = rb := by
      cases fuel with
      | zero => rfl
      | succ fuel =>
        rw [RingBuffer.resetLoop]
        dsimp only
        rw [if_neg (by rw [hhead]; exact not_not.mpr (hz (List.not_mem_nil)))]
    rw [hstop]
    exact ⟨hhead, rfl, rfl, by simp, rfl, fun p => by simp⟩
  | cons c cs ih =>
    obtain ⟨fuel, rfl⟩ : ∃ f, fuel = f + 1 := ⟨fuel - 1, by simp at hfuel; omega⟩
    obtain ⟨hcs, hnd'⟩ := List.nodup_cons.mp hnd
    obtain ⟨hcnext, hlinks'⟩ := hlinks
    rw [List.headD_cons] at hhead
    subst hhead
    have hc := hne rb.readHead (List.mem_cons_self ..)
    rw [RingBuffer.resetLoop]
    dsimp only
    rw [if_pos (Nat.ne_of_lt hc)]
    -- the read head is emptied and moves on
    set rb₁ : RingBuffer := ({ rb with length := rb.length - ((rb.buffers rb.readHead).writePos -
      (rb.buffers rb.readHead).readPos) }.modify rb.readHead fun b =>
        { b with writePos := 0, readPos := 0 }) with hrb₁
    have hnext₁ : rb₁.nextOf = rb.nextOf := RingBuffer.nextOf_modify _ _ _ fun _ => rfl
    have hhead₁ : rb₁.readHead = rb.readHead := rfl
    have hbuf₁ : ∀ p, p ≠ rb.readHead → rb₁.buffers p = rb.buffers p := fun p hp =>
      RingBuffer.modify_buffers_of_ne _ _ _ hp
    have hcontents₁ : rb₁.contents cs = rb.contents cs :=
      RingBuffer.contents_congr fun p hp => by rw [hbuf₁ p fun hpc => hcs (hpc ▸ hp)]
    obtain ⟨hr, hw, hf, hl, hn, hb⟩ :=
      @ih { rb₁ with readHead := rb₁.nextOf rb₁.readHead } fuel hnd'
        (hnext₁ ▸ hlinks') (by rw [hnext₁]; exact hcnext)
        (fun p hp => by
          change (rb₁.buffers p).readPos < (rb₁.buffers p).writePos
          rw [hbuf₁ p fun hpc => hcs (hpc ▸ hp)]
          exact hne p (List.mem_cons_of_mem _ hp))
        (fun hzcs => by
          change (rb₁.buffers z).readPos = (rb₁.buffers z).writePos
          by_cases hzc : z = rb.readHead
          · subst hzc
            simp [rb₁]
          · rw [hbuf₁ z hzc]
            exact hz fun hmem => (List.mem_cons.mp hmem).elim hzc hzcs)
        (by simp at hfuel; omega)
    refine ⟨hr, hw, hf, ?_, hn.trans hnext₁, fun p => ?_⟩
    · rw [hl]
      change rb.length - ((rb.buffers rb.readHead).writePos - (rb.buffers rb.readHead).readPos) -
        (rb₁.contents cs).length = _
      rw [hcontents₁, RingBuffer.contents_cons, List.length_append]
      simp only [Buffer.bytes, length_bytesAt]
      omega
    · rw [hb p]
      by_cases hpc : p = rb.readHead
      · subst hpc
        simp [hcs, rb₁]
      · change (if p ∈ cs then { rb₁.buffers p with readPos := 0, writePos := 0 }
          else rb₁.buffers p) = _
        simp [hbuf₁ p hpc, hpc]

/-- `reset` empties the buffer: the loop empties the buffers that hold bytes, from the read head
on, and both heads stop on the first buffer after them. -/
theorem Inv.reset (h : Inv rb live free) :
    ∃ live' free', Inv rb.reset live' free' ∧ rb.reset.contents live' = [] := by
  obtain ⟨init, hlive⟩ := h.live_eq_append
  have hnd := h.nodup
  have hlinks := h.links
  -- every buffer before the write head holds bytes
  have hinit : ∀ c ∈ init, (rb.buffers c).readPos < (rb.buffers c).writePos := fun c hc => by
    have hne := h.bytes_ne_nil_of_mem_dropLast h.normal
      (by rw [hlive, List.dropLast_concat]; exact hc)
    rw [Ne, Buffer.bytes_eq_nil_iff] at hne
    omega
  obtain ⟨rest, hrest⟩ := h.live_eq_cons
  dsimp only [RingBuffer.reset]
  by_cases hw : (rb.buffers rb.writeHead).readPos = (rb.buffers rb.writeHead).writePos
  · -- the write head holds nothing: the loop stops on it
    have hwnil : (rb.buffers rb.writeHead).bytes = [] :=
      (Buffer.bytes_eq_nil_iff _).mpr hw.ge
    have hcontents : rb.contents live = rb.contents init := by
      rw [hlive, RingBuffer.contents_append, RingBuffer.contents_cons, hwnil,
        RingBuffer.contents_nil, List.append_nil, List.append_nil]
    rw [hlive, List.append_assoc, links_append] at hlinks
    rw [hlive, List.append_assoc] at hnd
    have hhead : rb.readHead = init.headD rb.writeHead := by
      have := h.head?_live
      rw [hlive] at this
      cases init with
      | nil => exact (Option.some.inj this).symm
      | cons a init => exact (Option.some.inj this).symm
    obtain ⟨hr, -, hf, hl, hn, hb⟩ := resetLoop_spec rb.length
      (List.nodup_append.mp hnd).1 hlinks.1 hhead hinit (fun _ => hw)
      (by
        rw [h.length_eq, hcontents]
        exact length_le_length_contents fun c hc => by
          rw [Ne, Buffer.bytes_eq_nil_iff]
          have := hinit c hc
          omega)
    -- the ring turned to start at the write head
    have hperm : (rb.writeHead :: (free ++ init)).Perm (live ++ free) := by
      have : (rb.writeHead :: free ++ init).Perm (init ++ rb.writeHead :: free) :=
        List.perm_append_comm
      rw [hlive, List.append_assoc, List.singleton_append]
      exact this
    have hwzero : (rb.buffers rb.writeHead).readPos = 0 := by
      cases init with
      | nil =>
        have hn : (rb.buffers rb.readHead).readPos = (rb.buffers rb.readHead).writePos →
            (rb.buffers rb.readHead).readPos = 0 := h.normal
        rw [show rb.readHead = rb.writeHead from hhead] at hn
        exact hn hw
      | cons a init =>
        exact h.readPos_tail _ (by rw [hlive]; simp)
    set R := RingBuffer.resetLoop rb.length rb with hR
    have hlen : R.length = 0 := by rw [hl, ← hcontents, ← h.length_eq, Nat.sub_self]
    have hinv : Inv { R with writeHead := R.readHead } [rb.writeHead] (free ++ init) := by
      refine Inv.of_empty (hperm.nodup_iff.mpr h.nodup) ?_ (hperm.mem_iff.mpr h.head_mem)
        (fun p hp => by change p < R.fresh; rw [hf]; exact h.lt_fresh p (hperm.mem_iff.mp hp))
          hr hr
        (fun p hp => ?_) hlen
      · change Links R.nextOf _ _
        rw [hn]
        cases init with
        | nil => simpa [hhead] using hlinks.2
        | cons a init =>
          have hlinks₀ := h.links
          rw [hlive, hhead] at hlinks₀
          simpa using Links.rotate_append (by simpa using hlinks₀)
      · change (R.buffers p).readPos = 0 ∧ (R.buffers p).writePos = 0
        rw [hb p]
        split
        · exact ⟨rfl, rfl⟩
        · rename_i hpi
          rcases List.mem_cons.mp hp with rfl | hp
          · exact ⟨hwzero, hw ▸ hwzero⟩
          · exact h.empty p ((List.mem_append.mp hp).resolve_right hpi)
    exact ⟨_, _, hinv, List.eq_nil_of_length_eq_zero (hinv.length_eq.symm.trans hlen)⟩
  · -- the write head holds bytes: the loop empties all of `live`
    have hwlt : (rb.buffers rb.writeHead).readPos < (rb.buffers rb.writeHead).writePos := by
      have := h.readPos_le _ h.writeHead_mem
      omega
    have hall : ∀ c ∈ live, (rb.buffers c).readPos < (rb.buffers c).writePos := fun c hc => by
      rw [hlive] at hc
      rcases List.mem_append.mp hc with hc | hc
      · exact hinit c hc
      · rw [List.mem_singleton.mp hc]
        exact hwlt
    obtain ⟨hr, -, hf, hl, hn, hb⟩ := resetLoop_spec rb.length
      (List.nodup_append.mp hnd).1 (links_append.mp hlinks).1
      (by rw [hrest]; rfl) hall
      (fun hz => by
        cases free with
        | nil => exact absurd (hrest ▸ List.mem_cons_self ..) hz
        | cons f free₁ =>
          have := h.empty f (List.mem_cons_self ..)
          simp only [List.headD_cons]
          omega)
      (by
        rw [h.length_eq]
        exact length_le_length_contents fun c hc => by
          rw [Ne, Buffer.bytes_eq_nil_iff]
          have := hall c hc
          omega)
    set R := RingBuffer.resetLoop rb.length rb with hR
    have hlen : R.length = 0 := by rw [hl, h.length_eq, Nat.sub_self]
    have hzero : ∀ p ∈ live, (R.buffers p).readPos = 0 ∧ (R.buffers p).writePos = 0 :=
      fun p hp => by rw [hb p, if_pos hp]; exact ⟨rfl, rfl⟩
    cases free with
    | nil =>
      -- no buffer is free: both heads go back to the read head, and the ring is `live`
      rw [List.append_nil] at hnd hlinks
      have hinv : Inv { R with writeHead := R.readHead } [rb.readHead] rest := by
        refine Inv.of_empty (hrest ▸ hnd) ?_ (by simpa [hrest] using h.head_mem)
          (fun p hp => by change p < R.fresh; rw [hf]; exact h.lt_fresh p (by simp [hrest, hp]))
          hr hr
          (fun p hp => hzero p (hrest ▸ hp)) hlen
        change Links R.nextOf _ _
        rw [hn, ← hrest]
        exact hlinks
      exact ⟨_, _, hinv, List.eq_nil_of_length_eq_zero (hinv.length_eq.symm.trans hlen)⟩
    | cons f free₁ =>
      -- both heads go to the first free buffer, and the ring turns to start there
      have hperm : (f :: free₁ ++ live).Perm (live ++ f :: free₁) := List.perm_append_comm
      have hinv : Inv { R with writeHead := R.readHead } [f] (free₁ ++ live) := by
        refine Inv.of_empty (hperm.nodup_iff.mpr hnd) ?_ (hperm.mem_iff.mpr h.head_mem)
          (fun p hp => by change p < R.fresh; rw [hf]; exact h.lt_fresh p (hperm.mem_iff.mp hp))
          hr hr
          (fun p hp => ?_) hlen
        · change Links R.nextOf _ _
          rw [hn, hrest]
          rw [hrest] at hlinks
          exact Links.rotate_append hlinks
        · by_cases hpl : p ∈ live
          · exact hzero p hpl
          · change (R.buffers p).readPos = 0 ∧ (R.buffers p).writePos = 0
            rw [hb p, if_neg hpl]
            have hpf : p ∈ f :: free₁ := by
              simp only [List.mem_cons, List.mem_append] at hp ⊢
              tauto
            exact h.empty p hpf
      exact ⟨_, _, hinv, List.eq_nil_of_length_eq_zero (hinv.length_eq.symm.trans hlen)⟩

end Reset

end CassandraDriver.Rb
