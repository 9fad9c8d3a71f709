import CassandraDriver.Data.HappensBefore

/-!
# Schema snapshots and the updates of the metadata

`Metadata` keeps the schema in two buffers, `front_` and `back_`; `updating_` points at the one
the control connection's thread changes, and `schema_snapshot_version_` counts the changes. Any
thread takes a `schema_snapshot`: the session API, and every I/O thread in
`PartitionAwarePolicy::new_query_plan`. It copies the version and the maps of `front_` holding
`mutex_`. The updates run on the control connection's thread; those that change `front_` do so
holding `mutex_`.

Each method is modelled by the accesses it makes to these four fields and its operations on
`mutex_`, in program order (`Method.actions`). The control connection's thread calls them in
turn (`controlEvents`), and a snapshot can be taken between two of its calls
(`snapshotBetween`); such an execution is lock-safe.

Every update and drop method but `update_partitions` increments the version before it takes
`mutex_`, on the front buffer as on the back one. A snapshot taken just before such a method
reads the version, and the method then writes it, and neither happens before the other: the two
race on `schema_snapshot_version_` (`snapshotBetween_races`). `update_partitions`,
`swap_to_back_and_update_front` and `clear` change the version holding `mutex_`, and there the
snapshot's read happens before their write (`snapshotBetween_ordered`).
-/

namespace CassandraDriver

namespace Metadata

open HappensBefore

/-- The fields of `Metadata` that the snapshots and the updates share. -/
inductive Field
  | schemaSnapshotVersion
  | front
  | back
  | updating
  deriving DecidableEq, Repr

/-- The control connection's thread, and the threads that take snapshots. -/
inductive Thread
  | controlConnection
  | snapshotter (n : Nat)
  deriving DecidableEq, Repr

/-- The actions on the fields and on `mutex_`, the one mutex. -/
abbrev Act := Action Field Unit

/-- `schema_snapshot`: under `mutex_`, the version and the maps of `front_`. -/
def schemaSnapshot : List Act :=
  [.lock (), .read .schemaSnapshotVersion, .read .front, .unlock ()]

/-- `schema_snapshot_version_++`. -/
def incrementVersion : List Act :=
  [.read .schemaSnapshotVersion, .write .schemaSnapshotVersion]

/-- The buffer `updating_` points at. -/
def updatingBuffer (isFront : Bool) : Field :=
  if isFront then .front else .back

/-- `updating_->...(...)`: a change to the buffer `updating_` points at. -/
def updateBuffer (isFront : Bool) : List Act :=
  [.read .updating, .write (updatingBuffer isFront)]

/-- The update and drop methods but `update_partitions`: the version is incremented, then
`is_front_buffer()` is read, and `body` changes the buffer, holding `mutex_` when it is the
front one. -/
def updateWith (isFront : Bool) (body : List Act) : List Act :=
  incrementVersion ++ .read .updating ::
    if isFront then .lock () :: body ++ [.unlock ()] else body

/-- The methods of `Metadata` that the control connection's thread calls. -/
inductive Method
  | updateKeyspaces
  | updateTables
  | updateViews
  | updateColumns (legacyIndexes : Bool)
  | updateIndexes
  | updateUserTypes
  | updateFunctions
  | updateAggregates
  | updatePartitions
  | dropKeyspace
  | dropTableOrView
  | dropUserType
  | dropFunction
  | dropAggregate
  | clearAndUpdateBack
  | swapToBackAndUpdateFront
  | clear
  deriving DecidableEq, Repr

namespace Method

/-- The accesses and mutex operations of a method, with `updating_` on the front buffer when
`isFront`. `update_columns` also updates the legacy indexes before Cassandra 3.0. -/
def actions (isFront : Bool) : Method → List Act
  | updateKeyspaces | updateTables | updateViews | updateIndexes | updateUserTypes
  | updateFunctions | updateAggregates
  | dropKeyspace | dropTableOrView | dropUserType | dropFunction | dropAggregate =>
    updateWith isFront (updateBuffer isFront)
  | updateColumns legacyIndexes =>
    updateWith isFront (updateBuffer isFront ++ if legacyIndexes then updateBuffer isFront else [])
  | updatePartitions => .lock () :: incrementVersion ++ updateBuffer isFront ++ [.unlock ()]
  | clearAndUpdateBack => [.write .back, .write .updating]
  | swapToBackAndUpdateFront =>
    .lock () :: incrementVersion ++ [.read .front, .read .back, .write .front, .write .back] ++
      [.unlock (), .write .back, .write .updating]
  | clear => [.lock (), .write .schemaSnapshotVersion, .write .front, .unlock (), .write .back]

/-- Whether `updating_` is on the front buffer after the method. -/
def nextIsFront (isFront : Bool) : Method → Bool
  | clearAndUpdateBack => false
  | swapToBackAndUpdateFront => true
  | _ => isFront

/-- The methods that increment the version before they take `mutex_`. -/
def IncrementsOutsideMutex : Method → Prop
  | updatePartitions | clearAndUpdateBack | swapToBackAndUpdateFront | clear => False
  | _ => True

/-- The methods that change the version holding `mutex_`. -/
def ChangesVersionUnderMutex : Method → Prop
  | updatePartitions | swapToBackAndUpdateFront | clear => True
  | _ => False

end Method

/-! ### Executions -/

/-- The events of the control connection's thread calling the methods in turn. -/
def controlEvents (isFront : Bool) : List Method → List (Event Thread Field Unit)
  | [] => []
  | m :: ms =>
    (m.actions isFront).map (Event.mk Thread.controlConnection) ++
      controlEvents (m.nextIsFront isFront) ms

/-- Whether `updating_` is on the front buffer after the methods. -/
def frontAfter (isFront : Bool) (ms : List Method) : Bool :=
  ms.foldl Method.nextIsFront isFront

/-- The events of a `schema_snapshot` on the thread `n`. -/
def snapshotEvents (n : Nat) : List (Event Thread Field Unit) :=
  schemaSnapshot.map (Event.mk (Thread.snapshotter n))

/-- The control connection's thread calls the methods `ms₁`, the thread `n` takes a snapshot,
and the control connection's thread calls the methods `ms₂`. -/
def snapshotBetween (isFront : Bool) (ms₁ ms₂ : List Method) (n : Nat) :
    List (Event Thread Field Unit) :=
  controlEvents isFront ms₁ ++ snapshotEvents n ++ controlEvents (frontAfter isFront ms₁) ms₂

lemma controlEvents_thread {isFront : Bool} {ms : List Method} :
    ∀ x ∈ controlEvents isFront ms, x.thread = .controlConnection := by
  induction ms generalizing isFront with
  | nil => simp [controlEvents]
  | cons m ms ih =>
    intro x hx
    rcases List.mem_append.mp hx with hx | hx
    · obtain ⟨a, -, rfl⟩ := List.mem_map.mp hx
      rfl
    · exact ih x hx

/-- A method leaves `mutex_` free: what it locks, it unlocks. -/
lemma holdersFrom_actions (isFront : Bool) (m : Method) :
    holdersFrom (fun _ => none) ((m.actions isFront).map (Event.mk Thread.controlConnection)) =
      some fun _ => none := by
  cases m with
  | updateColumns legacyIndexes =>
    cases legacyIndexes <;> cases isFront <;>
      simp [Method.actions, updateWith, updateBuffer, incrementVersion, holdersFrom]
  | _ =>
    cases isFront <;>
      simp [Method.actions, updateWith, updateBuffer, incrementVersion, holdersFrom]

lemma holdersFrom_controlEvents (isFront : Bool) (ms : List Method) :
    holdersFrom (fun _ => none) (controlEvents isFront ms) = some fun _ => none := by
  induction ms generalizing isFront with
  | nil => rfl
  | cons m ms ih =>
    rw [controlEvents, holdersFrom_append, holdersFrom_actions, Option.bind_some, ih]

/-- A snapshot between two calls of the control connection's thread finds `mutex_` free. -/
lemma lockSafe_snapshotBetween (isFront : Bool) (ms₁ ms₂ : List Method) (n : Nat) :
    LockSafe (snapshotBetween isFront ms₁ ms₂ n) := by
  have hsnap : holdersFrom (fun _ => none) (snapshotEvents n) = some fun _ => none := by
    simp [snapshotEvents, schemaSnapshot, holdersFrom]
  rw [LockSafe, snapshotBetween, holdersFrom_append, holdersFrom_append,
    holdersFrom_controlEvents, Option.bind_some, hsnap, Option.bind_some,
    holdersFrom_controlEvents]
  rfl

/-! ### The version -/

lemma actions_of_incrementsOutsideMutex {m : Method} (hm : m.IncrementsOutsideMutex)
    (isFront : Bool) : ∃ rest, m.actions isFront = incrementVersion ++ rest := by
  cases m <;> first
    | exact absurd hm id
    | exact ⟨_, rfl⟩

lemma getElem?_snapshotBetween_left (isFront : Bool) (ms₁ ms₂ : List Method) (n : Nat)
    {k : Nat} (hk : k < 4) :
    (snapshotBetween isFront ms₁ ms₂ n)[(controlEvents isFront ms₁).length + k]? =
      (snapshotEvents n)[k]? := by
  rw [snapshotBetween, List.append_assoc, List.getElem?_append_right (by omega),
    Nat.add_sub_cancel_left,
    List.getElem?_append_left (by simp [snapshotEvents, schemaSnapshot]; omega)]

lemma getElem?_snapshotBetween_right (isFront : Bool) (ms₁ ms₂ : List Method) (n k : Nat) :
    (snapshotBetween isFront ms₁ ms₂ n)[(controlEvents isFront ms₁).length + 4 + k]? =
      (controlEvents (frontAfter isFront ms₁) ms₂)[k]? := by
  rw [snapshotBetween, List.getElem?_append_right (by simp [snapshotEvents, schemaSnapshot]),
    List.length_append]
  simp [snapshotEvents, schemaSnapshot]

/-- A snapshot taken between two calls of the control connection's thread, the second an update
or drop method that increments the version before it takes `mutex_`: the snapshot's read of
`schema_snapshot_version_` and the method's write of it race. -/
theorem snapshotBetween_races (isFront : Bool) (ms₁ ms₂ : List Method) (m : Method)
    (hm : m.IncrementsOutsideMutex) (n : Nat) :
    LockSafe (snapshotBetween isFront ms₁ (m :: ms₂) n) ∧
      Race (snapshotBetween isFront ms₁ (m :: ms₂) n) ((controlEvents isFront ms₁).length + 1)
        ((controlEvents isFront ms₁).length + 4 + 1) := by
  obtain ⟨rest, hrest⟩ := actions_of_incrementsOutsideMutex hm (frontAfter isFront ms₁)
  -- the method's events begin with the read and the write of the version
  have hmethod : ∀ k < 2, (controlEvents (frontAfter isFront ms₁) (m :: ms₂))[k]? =
      (incrementVersion.map (Event.mk Thread.controlConnection))[k]? := fun k hk => by
    rw [controlEvents, hrest, List.map_append, List.append_assoc,
      List.getElem?_append_left (by simp [incrementVersion]; omega)]
  refine ⟨lockSafe_snapshotBetween _ _ _ _, by omega,
    ⟨.snapshotter n, .read .schemaSnapshotVersion⟩,
    ⟨.controlConnection, .write .schemaSnapshotVersion⟩,
    getElem?_snapshotBetween_left _ _ _ _ (by omega),
    by rw [getElem?_snapshotBetween_right, hmethod 1 (by omega)]; rfl, by simp, rfl, ?_⟩
  -- no lock of the control connection's thread comes before its write of the version
  have hnot := not_hb_append (a := controlEvents isFront ms₁ ++ snapshotEvents n)
    (b := controlEvents (frontAfter isFront ms₁) (m :: ms₂)) (i := (controlEvents isFront ms₁).length + 1) (j := 1)
    (A := .snapshotter n) (B := .controlConnection) (by simp)
    (by simp [snapshotEvents, schemaSnapshot])
    (fun x hx => by
      rw [List.drop_length_add_append] at hx
      obtain ⟨a, -, rfl⟩ := List.mem_map.mp (List.mem_of_mem_drop hx)
      rfl)
    controlEvents_thread
    (fun k hk x hx => by
      rw [hmethod k (by omega)] at hx
      rcases (by omega : k = 0 ∨ k = 1) with rfl | rfl <;>
        simp [incrementVersion] at hx <;> subst hx <;> exact id)
  rw [List.length_append, show (snapshotEvents n).length = 4 from rfl] at hnot
  exact hnot

/-- A snapshot taken as the control connection's thread starts `update_keyspaces` on the front
buffer: the snapshot's read of the version is event 1, the method's increment event 5. -/
theorem snapshotBetween_races_updateKeyspaces :
    Method.IncrementsOutsideMutex .updateKeyspaces ∧
      LockSafe (snapshotBetween true [] [.updateKeyspaces] 0) ∧
      Race (snapshotBetween true [] [.updateKeyspaces] 0) 1 5 :=
  ⟨trivial, snapshotBetween_races true [] [] .updateKeyspaces trivial 0⟩

lemma actions_of_changesVersionUnderMutex {m : Method} (hm : m.ChangesVersionUnderMutex)
    (isFront : Bool) : ∃ rest, m.actions isFront = .lock () :: rest := by
  cases m <;> first
    | exact absurd hm id
    | exact ⟨_, rfl⟩

/-- `update_partitions`, `swap_to_back_and_update_front` and `clear` write the version after they
take `mutex_`: in the same execution, the snapshot's read of the version happens before every
write of it by the method. -/
theorem snapshotBetween_ordered (isFront : Bool) (ms₁ ms₂ : List Method) (m : Method)
    (hm : m.ChangesVersionUnderMutex) (n : Nat) {k : Nat}
    (hk : ((m.actions (frontAfter isFront ms₁)).map (Event.mk Thread.controlConnection))[k]? =
      some ⟨.controlConnection, .write .schemaSnapshotVersion⟩) :
    HB (snapshotBetween isFront ms₁ (m :: ms₂) n) ((controlEvents isFront ms₁).length + 1)
      ((controlEvents isFront ms₁).length + 4 + k) := by
  obtain ⟨rest, hrest⟩ := actions_of_changesVersionUnderMutex hm (frontAfter isFront ms₁)
  have hb : ∀ j, (m.actions (frontAfter isFront ms₁)).length ≤ j ∨
      (controlEvents (frontAfter isFront ms₁) (m :: ms₂))[j]? =
        ((m.actions (frontAfter isFront ms₁)).map (Event.mk Thread.controlConnection))[j]? :=
    fun j => by
      by_cases hj : j < (m.actions (frontAfter isFront ms₁)).length
      · exact .inr (by rw [controlEvents, List.getElem?_append_left (by simpa using hj)])
      · exact .inl (by omega)
  have hklt : k < (m.actions (frontAfter isFront ms₁)).length := by
    by_contra hge
    rw [List.getElem?_eq_none (by simpa using hge)] at hk
    cases hk
  -- the snapshot's unlock synchronizes with the method's first action, its lock
  have hlock : (controlEvents (frontAfter isFront ms₁) (m :: ms₂))[0]? =
      some ⟨.controlConnection, .lock ()⟩ := by
    rw [(hb 0).resolve_left (by rw [hrest]; simp), hrest]
    rfl
  have hwrite := (hb k).resolve_left (by omega)
  rw [hk] at hwrite
  -- the snapshot's read and its unlock, the first and the third events after the method
  have hsnap : ∀ j, (controlEvents isFront ms₁ ++ snapshotEvents n)[
      (controlEvents isFront ms₁).length + j]? = (snapshotEvents n)[j]? := fun j => by
    rw [List.getElem?_append_right (by omega), Nat.add_sub_cancel_left]
  have h := hb_append_of_unlock_lock (A := .snapshotter n) (l := 0) ((hsnap 1).trans rfl) rfl
    (Nat.add_le_add_left (by decide : 1 ≤ 3) _) ((hsnap 3).trans rfl) hlock (Nat.zero_le k)
    hwrite rfl
  rw [List.length_append, show (snapshotEvents n).length = 4 from rfl] at h
  exact h

/-- A snapshot taken as the control connection's thread starts `update_partitions`: the
snapshot's read of the version, event 1, happens before the method's write of it, event 6. -/
theorem snapshotBetween_ordered_updatePartitions :
    HB (snapshotBetween true [] [.updatePartitions] 0) 1 6 :=
  snapshotBetween_ordered true [] [] .updatePartitions trivial 0 (k := 2) rfl

end Metadata

end CassandraDriver
