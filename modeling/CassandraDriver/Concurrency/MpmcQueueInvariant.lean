import CassandraDriver.Concurrency.MpmcQueue

/-!
# The invariant of the MPMC queue

Every node is at one position of its lap (`Slot`): free for that position's producer, with its
sequence number at the position, or holding the position's value, with the sequence number one
past it. A free node's position lies in the lap after `head_` and is claimed exactly when a
producer writes it; a full node's position is claimed, at most a lap behind `tail_`, and is taken
exactly when a consumer reads it. A thread between two of its steps knows what it has seen
(`PhaseOk`): a position not past the counter it loaded, a sequence number not below the one it
compared, and, once it has claimed a position, that the node is still at that position. Positions
are claimed by one thread each, and each dequeue that returned gave the value logged at its
position, once (`Inv`).

`Inv` holds of every reachable state (`Reachable.inv`): each step changes the phase of its thread
and at most one node, the one of the position the thread has claimed, which no other thread in
the middle of a call shares.
-/

namespace CassandraDriver.MPMCQueue

variable {τ α : Type} {q : QueueSize} {s : State τ α}

/-- Some thread holds position `p` in the role `role` reads off its phase: `Phase.writing`, a
producer that has claimed `p` and not published it, or `Phase.reading`, a consumer that has
claimed `p` and not released it. -/
def HeldAt (role : Phase α → Option Nat) (phase : τ → Phase α) (p : Nat) : Prop :=
  ∃ t, role (phase t) = some p

/-- The node of `p` is at `p`'s lap. Free: its sequence number is `p`, `p` is in the lap after
`head_`, and it is claimed exactly when a producer writes it. Full: the sequence number is
`p + 1`, the node holds `p`'s value, `tail_` is less than a lap past it, and `p` is claimed by a
consumer exactly when one reads it. -/
inductive Slot (q : QueueSize) (s : State τ α) (p : Nat) : Prop
  | free : s.seq (p % q.size) = p → s.head ≤ p → p < s.head + q.size →
      (p < s.tail ↔ HeldAt Phase.writing s.phase p) → Slot q s p
  | full : s.seq (p % q.size) = p + 1 → p < s.tail → s.tail ≤ p + q.size →
      s.data (p % q.size) = s.log[p]? → (p < s.head ↔ HeldAt Phase.reading s.phase p) →
      Slot q s p

/-- What a thread in the middle of a call knows of the queue. -/
def PhaseOk (q : QueueSize) (s : State τ α) : Phase α → Prop
  | .idle | .enqLoadTail _ | .deqLoadHead => True
  | .enqLoadSeq _ pos => pos ≤ s.tail
  | .enqCas _ pos => pos ≤ s.tail ∧ pos ≤ s.seq (pos % q.size)
  | .enqWrite d pos => pos < s.tail ∧ s.log[pos]? = some d ∧ s.seq (pos % q.size) = pos
  | .enqPublish pos =>
    pos < s.tail ∧ s.seq (pos % q.size) = pos ∧ s.data (pos % q.size) = s.log[pos]?
  | .deqLoadSeq pos => pos ≤ s.head
  | .deqCas pos => pos ≤ s.head ∧ pos + 1 ≤ s.seq (pos % q.size)
  | .deqRead pos => pos < s.head ∧ s.seq (pos % q.size) = pos + 1
  | .deqRelease pos v => pos < s.head ∧ s.seq (pos % q.size) = pos + 1 ∧ v = s.log[pos]?

/-- The invariant of the queue. -/
structure Inv (q : QueueSize) (s : State τ α) : Prop where
  tail_eq : s.tail = s.log.length
  head_le : s.head ≤ s.tail
  tail_le : s.tail ≤ s.head + q.size
  slot : ∀ i < q.size, ∃ p, p % q.size = i ∧ Slot q s p
  phase : ∀ t, PhaseOk q s (s.phase t)
  writing_unique : ∀ t t' p, (s.phase t).writing = some p → (s.phase t').writing = some p → t = t'
  reading_unique : ∀ t t' p, (s.phase t).reading = some p → (s.phase t').reading = some p → t = t'
  results : ∀ r ∈ s.results, r.1 < s.head ∧ r.2 = s.log[r.1]? ∧ ¬HeldAt Phase.reading s.phase r.1
  results_nodup : (s.results.map Prod.fst).Nodup
  results_complete : ∀ p < s.head, ¬HeldAt Phase.reading s.phase p → p ∈ s.results.map Prod.fst

/-! ### Positions and nodes -/

/-- The next position is in the next node. -/
lemma succ_mod_ne (q : QueueSize) (p : Nat) : (p + 1) % q.size ≠ p % q.size := fun h => by
  have := q.two_le
  have := eq_of_mod_eq_of_lt_add h (by omega) (by omega)
  omega

/-- A node's sequence number is its position or one past it. -/
lemma Slot.seq_eq {p : Nat} (h : Slot q s p) :
    s.seq (p % q.size) = p ∨ s.seq (p % q.size) = p + 1 := by
  cases h with
  | free hseq => exact .inl hseq
  | full hseq => exact .inr hseq

/-- The node of any position is at some position of the same node. -/
lemma Inv.slot_of (h : Inv q s) (x : Nat) : ∃ p, p % q.size = x % q.size ∧ Slot q s p :=
  h.slot _ (Nat.mod_lt _ q.size_pos)

/-- A sequence number equal to a position `x` of its node makes the node free at `x`. -/
lemma Inv.free_of_seq (h : Inv q s) {x : Nat} (hx : s.seq (x % q.size) = x) :
    s.head ≤ x ∧ x < s.head + q.size ∧ (x < s.tail ↔ HeldAt Phase.writing s.phase x) := by
  obtain ⟨p, hmod, hslot⟩ := h.slot_of x
  cases hslot with
  | free hseq hhead hlap hclaim =>
    rw [hmod, hx] at hseq
    subst hseq
    exact ⟨hhead, hlap, hclaim⟩
  | full hseq =>
    rw [hmod, hx] at hseq
    subst hseq
    exact absurd hmod (succ_mod_ne q p).symm

/-- A sequence number one past a position `x` of its node makes the node full at `x`. -/
lemma Inv.full_of_seq (h : Inv q s) {x : Nat} (hx : s.seq (x % q.size) = x + 1) :
    x < s.tail ∧ s.tail ≤ x + q.size ∧ s.data (x % q.size) = s.log[x]? ∧
      (x < s.head ↔ HeldAt Phase.reading s.phase x) := by
  obtain ⟨p, hmod, hslot⟩ := h.slot_of x
  cases hslot with
  | free hseq =>
    rw [hmod, hx] at hseq
    subst hseq
    exact absurd hmod (succ_mod_ne q x)
  | full hseq htail hlap hdata hclaim =>
    rw [hmod, hx, Nat.add_right_cancel_iff] at hseq
    subst hseq
    rw [← hmod]
    exact ⟨htail, hlap, hdata, hclaim⟩

/-- A producer that holds a claimed position knows its node is free at it. -/
lemma Inv.seq_of_writing (h : Inv q s) {t : τ} {x : Nat} (hw : (s.phase t).writing = some x) :
    s.seq (x % q.size) = x := by
  have hok := h.phase t
  cases hph : s.phase t <;> rw [hph] at hw hok <;> simp only [Phase.writing, reduceCtorEq,
    Option.some.injEq] at hw
  · subst hw
    exact hok.2.2
  · subst hw
    exact hok.2.1

/-- A consumer that holds a claimed position knows its node is full at it. -/
lemma Inv.seq_of_reading (h : Inv q s) {t : τ} {x : Nat} (hr : (s.phase t).reading = some x) :
    s.seq (x % q.size) = x + 1 := by
  have hok := h.phase t
  cases hph : s.phase t <;> rw [hph] at hr hok <;> simp only [Phase.reading, reduceCtorEq,
    Option.some.injEq] at hr
  · subst hr
    exact hok.2
  · subst hr
    exact hok.2.1

/-- Thread `t` holds the claimed position `x`, as a producer or as a consumer. -/
def Holds (s : State τ α) (t : τ) (x : Nat) : Prop :=
  (s.phase t).writing = some x ∨ (s.phase t).reading = some x

/-- Two threads that hold claimed positions hold them in different nodes: a node's sequence
number pins the one position of it that can be claimed, and each position is claimed by one
producer and then one consumer. -/
lemma Inv.mod_ne_of_holds (h : Inv q s) {t t' : τ} (hne : t ≠ t') {x y : Nat}
    (hx : Holds s t x) (hy : Holds s t' y) : x % q.size ≠ y % q.size := by
  intro hmod
  have hlap := q.two_le
  rcases hx with hx | hx <;> rcases hy with hy | hy
  case inl.inl =>
    have hxy : x = y := by rw [← h.seq_of_writing hx, hmod, h.seq_of_writing hy]
    exact hne (h.writing_unique t t' x hx (hxy ▸ hy))
  case inl.inr =>
    have hxy : x = y + 1 := by rw [← h.seq_of_writing hx, hmod, h.seq_of_reading hy]
    exact succ_mod_ne q y (hxy ▸ hmod)
  case inr.inl =>
    have hxy : x + 1 = y := by rw [← h.seq_of_reading hx, hmod, h.seq_of_writing hy]
    exact succ_mod_ne q x (hxy ▸ hmod).symm
  case inr.inr =>
    have hxy : x = y := by
      have := h.seq_of_reading hx
      rw [hmod, h.seq_of_reading hy] at this
      omega
    exact hne (h.reading_unique t t' x hx (hxy ▸ hy))

/-! ### Who holds a position after a step -/

section HeldAt

variable [DecidableEq τ] {role : Phase α → Option Nat} {phase : τ → Phase α} {t : τ}
  {ph : Phase α} {p : Nat}

/-- A thread that moves to a phase holding what it held keeps who holds every position. -/
lemma heldAt_update_of_eq (h : role ph = role (phase t)) :
    HeldAt role (Function.update phase t ph) p ↔ HeldAt role phase p := by
  constructor
  · rintro ⟨t', ht'⟩
    by_cases heq : t' = t
    · subst heq
      rw [Function.update_self, h] at ht'
      exact ⟨t', ht'⟩
    · rw [Function.update_of_ne heq] at ht'
      exact ⟨t', ht'⟩
  · rintro ⟨t', ht'⟩
    refine ⟨t', ?_⟩
    by_cases heq : t' = t
    · subst heq
      rw [Function.update_self, h]
      exact ht'
    · rw [Function.update_of_ne heq]
      exact ht'

/-- A thread that held nothing and takes position `x` adds it. -/
lemma heldAt_update_add (hnone : role (phase t) = none) {x : Nat} (hph : role ph = some x) :
    HeldAt role (Function.update phase t ph) p ↔ HeldAt role phase p ∨ p = x := by
  constructor
  · rintro ⟨t', ht'⟩
    by_cases heq : t' = t
    · subst heq
      rw [Function.update_self, hph, Option.some.injEq] at ht'
      exact .inr ht'.symm
    · rw [Function.update_of_ne heq] at ht'
      exact .inl ⟨t', ht'⟩
  · rintro (⟨t', ht'⟩ | rfl)
    · have heq : t' ≠ t := by
        rintro rfl
        rw [hnone] at ht'
        cases ht'
      exact ⟨t', by rw [Function.update_of_ne heq]; exact ht'⟩
    · exact ⟨t, by rw [Function.update_self, hph]⟩

/-- A thread that gives up the position `x`, which it alone held, removes it. -/
lemma heldAt_update_remove {x : Nat} (hx : role (phase t) = some x)
    (huniq : ∀ t', role (phase t') = some x → t' = t) (hph : role ph = none) :
    HeldAt role (Function.update phase t ph) p ↔ HeldAt role phase p ∧ p ≠ x := by
  constructor
  · rintro ⟨t', ht'⟩
    have heq : t' ≠ t := by
      rintro rfl
      rw [Function.update_self, hph] at ht'
      cases ht'
    rw [Function.update_of_ne heq] at ht'
    refine ⟨⟨t', ht'⟩, ?_⟩
    rintro rfl
    exact heq (huniq t' ht')
  · rintro ⟨⟨t', ht'⟩, hne⟩
    have heq : t' ≠ t := by
      rintro rfl
      rw [hx] at ht'
      exact hne (Option.some.inj ht').symm
    exact ⟨t', by rw [Function.update_of_ne heq]; exact ht'⟩

/-- Positions stay held by one thread each when the moving thread takes none that another
thread holds. -/
lemma unique_update
    (huniq : ∀ t₁ t₂ x, role (phase t₁) = some x → role (phase t₂) = some x → t₁ = t₂)
    (hnew : ∀ x, role ph = some x → ∀ t', t' ≠ t → role (phase t') ≠ some x) :
    ∀ t₁ t₂ x, role (Function.update phase t ph t₁) = some x →
      role (Function.update phase t ph t₂) = some x → t₁ = t₂ := by
  intro t₁ t₂ x h₁ h₂
  by_cases e₁ : t₁ = t <;> by_cases e₂ : t₂ = t
  · rw [e₁, e₂]
  · subst e₁
    rw [Function.update_self] at h₁
    rw [Function.update_of_ne e₂] at h₂
    exact absurd h₂ (hnew x h₁ t₂ e₂)
  · subst e₂
    rw [Function.update_self] at h₂
    rw [Function.update_of_ne e₁] at h₁
    exact absurd h₁ (hnew x h₂ t₁ e₁)
  · rw [Function.update_of_ne e₁] at h₁
    rw [Function.update_of_ne e₂] at h₂
    exact huniq t₁ t₂ x h₁ h₂

end HeldAt

/-- What a thread knows stays true over a step that moves the counters and the sequence numbers
only forward, keeps the logged values, and leaves the node of the position the thread holds
alone. -/
lemma PhaseOk.transport {s' : State τ α} {ph : Phase α} (hok : PhaseOk q s ph)
    (hht : s.head ≤ s.tail) (htail : s.tail ≤ s'.tail) (hhead : s.head ≤ s'.head)
    (hseq : ∀ i, s.seq i ≤ s'.seq i) (hlog : ∀ x < s.tail, s'.log[x]? = s.log[x]?)
    (hnode : ∀ x, ph.writing = some x ∨ ph.reading = some x →
      s'.seq (x % q.size) = s.seq (x % q.size) ∧ s'.data (x % q.size) = s.data (x % q.size)) :
    PhaseOk q s' ph := by
  cases ph with
  | idle | enqLoadTail | deqLoadHead => trivial
  | enqLoadSeq d pos => exact le_trans hok htail
  | enqCas d pos => exact ⟨hok.1.trans htail, hok.2.trans (hseq _)⟩
  | enqWrite d pos =>
    obtain ⟨hlt, hd, hs⟩ := hok
    exact ⟨hlt.trans_le htail, (hlog pos hlt).trans hd, (hnode pos (.inl rfl)).1.trans hs⟩
  | enqPublish pos =>
    obtain ⟨hlt, hs, hd⟩ := hok
    have hn := hnode pos (.inl rfl)
    exact ⟨hlt.trans_le htail, hn.1.trans hs, hn.2.trans (hd.trans (hlog pos hlt).symm)⟩
  | deqLoadSeq pos => exact le_trans hok hhead
  | deqCas pos => exact ⟨hok.1.trans hhead, hok.2.trans (hseq _)⟩
  | deqRead pos =>
    obtain ⟨hlt, hs⟩ := hok
    exact ⟨hlt.trans_le hhead, (hnode pos (.inr rfl)).1.trans hs⟩
  | deqRelease pos v =>
    obtain ⟨hlt, hs, hv⟩ := hok
    exact ⟨hlt.trans_le hhead, (hnode pos (.inr rfl)).1.trans hs,
      hv.trans (hlog pos (by omega)).symm⟩

/-! ### The steps -/

/-- The node of the position at `tail_` is free at it when a producer that compared its sequence
number claims it: a full node would hold a position a lap behind `tail_`. -/
lemma Inv.seq_tail_of_enqCas (h : Inv q s) {t : τ} {d : α} {pos : Nat}
    (hph : s.phase t = .enqCas d pos) (htail : s.tail = pos) : s.seq (pos % q.size) = pos := by
  have hok : pos ≤ s.tail ∧ pos ≤ s.seq (pos % q.size) := by
    have := h.phase t
    rwa [hph] at this
  have hlap := h.tail_le
  have hht := h.head_le
  obtain ⟨p, hmod, hslot⟩ := h.slot_of pos
  cases hslot with
  | free hs hh hl =>
    rw [hmod] at hs
    have := eq_of_mod_eq_of_lt_add hmod (by omega) (by omega)
    omega
  | full hs ht =>
    rw [hmod] at hs
    have hp : pos = p + 1 := by omega
    exact absurd (hp ▸ hmod) (succ_mod_ne q p).symm

/-- The node of the position at `head_` is full at it when a consumer that compared its sequence
number claims it: a node free at a later position would lie a lap past `head_`. -/
lemma Inv.seq_head_of_deqCas (h : Inv q s) {t : τ} {pos : Nat}
    (hph : s.phase t = .deqCas pos) (hhead : s.head = pos) : s.seq (pos % q.size) = pos + 1 := by
  have hok : pos ≤ s.head ∧ pos + 1 ≤ s.seq (pos % q.size) := by
    have := h.phase t
    rwa [hph] at this
  have hlap := h.tail_le
  obtain ⟨p, hmod, hslot⟩ := h.slot_of pos
  cases hslot with
  | free hs hh hl =>
    rw [hmod] at hs
    have := eq_of_mod_eq_of_lt_add hmod (by omega) (by omega)
    omega
  | full hs ht =>
    rw [hmod] at hs
    have := eq_of_mod_eq_of_lt_add hmod (by omega) (by omega)
    omega

section Steps

variable [DecidableEq τ]

/-- A step that only moves a thread to a phase holding what it held, and that the thread may be
in. -/
lemma Inv.setPhase (h : Inv q s) {t : τ} {ph₀ ph : Phase α} (hph : s.phase t = ph₀)
    (hw : ph.writing = ph₀.writing) (hr : ph.reading = ph₀.reading)
    (hok : PhaseOk q s ph) : Inv q (s.setPhase t ph) := by
  subst hph
  have hW (p : Nat) : HeldAt Phase.writing (s.setPhase t ph).phase p ↔
      HeldAt Phase.writing s.phase p := heldAt_update_of_eq hw
  have hR (p : Nat) : HeldAt Phase.reading (s.setPhase t ph).phase p ↔
      HeldAt Phase.reading s.phase p := heldAt_update_of_eq hr
  refine ⟨h.tail_eq, h.head_le, h.tail_le, ?_, ?_, ?_, ?_, ?_, h.results_nodup, ?_⟩
  · intro i hi
    obtain ⟨p, hp, hslot⟩ := h.slot i hi
    refine ⟨p, hp, ?_⟩
    cases hslot with
    | free hs hh hl hc => exact .free hs hh hl (hc.trans (hW p).symm)
    | full hs ht hl hd hc => exact .full hs ht hl hd (hc.trans (hR p).symm)
  · intro t'
    by_cases heq : t' = t
    · subst heq
      rw [State.setPhase_self]
      exact hok
    · rw [State.setPhase_of_ne _ _ _ heq]
      exact h.phase t'
  · exact unique_update h.writing_unique fun x hx t' hne hx' =>
      hne (h.writing_unique _ _ x hx' (hw ▸ hx))
  · exact unique_update h.reading_unique fun x hx t' hne hx' =>
      hne (h.reading_unique _ _ x hx' (hr ▸ hx))
  · intro r hr'
    obtain ⟨hlt, hv, hnot⟩ := h.results r hr'
    exact ⟨hlt, hv, (hR r.1).not.mpr hnot⟩
  · intro p hp hnot
    exact h.results_complete p hp ((hR p).not.mp hnot)

/-- A producer's compare-exchange that claims `pos`: `tail_` moves past it and its value is
logged. -/
lemma Inv.claimWrite (h : Inv q s) {t : τ} {d : α} {pos : Nat}
    (hph : s.phase t = .enqCas d pos) (htail : s.tail = pos) :
    Inv q { s.setPhase t (.enqWrite d pos) with tail := pos + 1, log := s.log ++ [d] } := by
  show Inv q ⟨pos + 1, s.head, s.seq, s.data, Function.update s.phase t (.enqWrite d pos),
    s.log ++ [d], s.results⟩
  set s' : State τ α := ⟨pos + 1, s.head, s.seq, s.data,
    Function.update s.phase t (.enqWrite d pos), s.log ++ [d], s.results⟩ with hs'
  have e_tail : s'.tail = pos + 1 := rfl
  have e_head : s'.head = s.head := rfl
  have e_log : s'.log = s.log ++ [d] := rfl
  have hseq := h.seq_tail_of_enqCas hph htail
  obtain ⟨hhead, hlap, hclaim⟩ := h.free_of_seq hseq
  have hfree : ¬HeldAt Phase.writing s.phase pos := fun hw => by
    have := hclaim.mpr hw
    omega
  have hpos : pos = s.log.length := htail ▸ h.tail_eq
  have hW (p : Nat) : HeldAt Phase.writing s'.phase p ↔ HeldAt Phase.writing s.phase p ∨ p = pos :=
    heldAt_update_add (by rw [hph]; rfl) rfl
  have hR (p : Nat) : HeldAt Phase.reading s'.phase p ↔ HeldAt Phase.reading s.phase p :=
    heldAt_update_of_eq (by rw [hph]; rfl)
  have hlog (x : Nat) (hx : x < s.tail) : s'.log[x]? = s.log[x]? :=
    List.getElem?_append_left (by omega)
  refine ⟨by simp [e_tail, e_log, hpos], by omega, by omega, ?_, ?_, ?_, ?_, ?_,
    h.results_nodup, ?_⟩
  · intro i hi
    obtain ⟨p, hp, hslot⟩ := h.slot i hi
    by_cases hnode : p % q.size = pos % q.size
    · -- the node of `pos`: still free at `pos`, now claimed by `t`
      refine ⟨pos, hnode ▸ hp, .free hseq hhead hlap ?_⟩
      exact iff_of_true (by omega) ((hW pos).mpr (.inr rfl))
    · have hne : p ≠ pos := fun he => hnode (he ▸ rfl)
      refine ⟨p, hp, ?_⟩
      cases hslot with
      | free hs hh hl hc =>
        refine .free hs hh hl ?_
        rw [hW p, ← hc, or_iff_left hne, e_tail]
        omega
      | full hs ht hl hd hc =>
        have hlap' : pos ≠ p + q.size := fun he => hnode (by rw [he, Nat.add_mod_right])
        refine .full hs (by omega) (by omega) ?_ (hc.trans (hR p).symm)
        rw [hlog p ht]
        exact hd
  · intro t'
    by_cases heq : t' = t
    · subst heq
      show PhaseOk q s' (Function.update s.phase t' (.enqWrite d pos) t')
      rw [Function.update_self]
      refine ⟨by omega, ?_, hseq⟩
      rw [e_log, hpos, List.getElem?_append_right le_rfl, Nat.sub_self]
      rfl
    · show PhaseOk q s' (Function.update s.phase t (.enqWrite d pos) t')
      rw [Function.update_of_ne heq]
      exact (h.phase t').transport h.head_le (by omega) le_rfl (fun _ => le_rfl) hlog
        (fun _ _ => ⟨rfl, rfl⟩)
  · exact unique_update h.writing_unique fun x hx t' _ hx' => by
      cases hx
      exact hfree ⟨t', hx'⟩
  · exact unique_update h.reading_unique fun x hx => by cases hx
  · intro r hr'
    obtain ⟨hlt, hv, hnot⟩ := h.results r hr'
    exact ⟨hlt, hv.trans (hlog r.1 (by have := h.head_le; omega)).symm, (hR r.1).not.mpr hnot⟩
  · intro p hp hnot
    exact h.results_complete p hp ((hR p).not.mp hnot)

/-- A producer writes its value into the node of the position it holds. -/
lemma Inv.write (h : Inv q s) {t : τ} {d : α} {pos : Nat} (hph : s.phase t = .enqWrite d pos) :
    Inv q { s.setPhase t (.enqPublish pos) with
      data := Function.update s.data (pos % q.size) (some d) } := by
  show Inv q ⟨s.tail, s.head, s.seq, Function.update s.data (pos % q.size) (some d),
    Function.update s.phase t (.enqPublish pos), s.log, s.results⟩
  set s' : State τ α := ⟨s.tail, s.head, s.seq, Function.update s.data (pos % q.size) (some d),
    Function.update s.phase t (.enqPublish pos), s.log, s.results⟩ with hs'
  have e_data : s'.data = Function.update s.data (pos % q.size) (some d) := rfl
  obtain ⟨hlt, hd, hseq⟩ : pos < s.tail ∧ s.log[pos]? = some d ∧ s.seq (pos % q.size) = pos := by
    have := h.phase t
    rwa [hph] at this
  have hwt : (s.phase t).writing = some pos := by rw [hph]; rfl
  have hW (p : Nat) : HeldAt Phase.writing s'.phase p ↔ HeldAt Phase.writing s.phase p :=
    heldAt_update_of_eq (by rw [hph]; rfl)
  have hR (p : Nat) : HeldAt Phase.reading s'.phase p ↔ HeldAt Phase.reading s.phase p :=
    heldAt_update_of_eq (by rw [hph]; rfl)
  have hdata (i : Nat) (hi : i ≠ pos % q.size) : s'.data i = s.data i := by
    rw [e_data]
    exact Function.update_of_ne hi _ _
  refine ⟨h.tail_eq, h.head_le, h.tail_le, ?_, ?_, ?_, ?_, ?_, h.results_nodup, ?_⟩
  · intro i hi
    by_cases hnode : i = pos % q.size
    · subst hnode
      obtain ⟨hh, hl, hc⟩ := h.free_of_seq hseq
      exact ⟨pos, rfl, .free hseq hh hl (hc.trans (hW pos).symm)⟩
    · obtain ⟨p, hp, hslot⟩ := h.slot i hi
      refine ⟨p, hp, ?_⟩
      cases hslot with
      | free hs hh hl hc => exact .free hs hh hl (hc.trans (hW p).symm)
      | full hs ht hl hd hc =>
        refine .full hs ht hl ?_ (hc.trans (hR p).symm)
        rw [hp, hdata i hnode, ← hp]
        exact hd
  · intro t'
    by_cases heq : t' = t
    · subst heq
      show PhaseOk q s' (Function.update s.phase t' (.enqPublish pos) t')
      rw [Function.update_self]
      refine ⟨hlt, hseq, ?_⟩
      rw [e_data, Function.update_self]
      exact hd.symm
    · show PhaseOk q s' (Function.update s.phase t (.enqPublish pos) t')
      rw [Function.update_of_ne heq]
      -- the other threads hold positions of other nodes
      exact (h.phase t').transport h.head_le le_rfl le_rfl (fun _ => le_rfl) (fun _ _ => rfl)
        fun x hx => ⟨rfl, hdata _ (h.mod_ne_of_holds heq hx (.inl hwt))⟩
  · exact unique_update h.writing_unique fun x hx t' hne hx' =>
      hne (h.writing_unique t' t x hx' (hwt.trans hx))
  · exact unique_update h.reading_unique fun x hx => by cases hx
  · intro r hr'
    obtain ⟨hlt', hv, hnot⟩ := h.results r hr'
    exact ⟨hlt', hv, (hR r.1).not.mpr hnot⟩
  · intro p hp hnot
    exact h.results_complete p hp ((hR p).not.mp hnot)

/-- A producer publishes its position: the node's sequence number moves one past it, and the
node holds the position's value for its consumer. -/
lemma Inv.publish (h : Inv q s) {t : τ} {pos : Nat} (hph : s.phase t = .enqPublish pos) :
    Inv q { s.setPhase t .idle with seq := Function.update s.seq (pos % q.size) (pos + 1) } := by
  show Inv q ⟨s.tail, s.head, Function.update s.seq (pos % q.size) (pos + 1), s.data,
    Function.update s.phase t .idle, s.log, s.results⟩
  set s' : State τ α := ⟨s.tail, s.head, Function.update s.seq (pos % q.size) (pos + 1), s.data,
    Function.update s.phase t .idle, s.log, s.results⟩ with hs'
  have e_tail : s'.tail = s.tail := rfl
  have e_head : s'.head = s.head := rfl
  have e_seq : s'.seq = Function.update s.seq (pos % q.size) (pos + 1) := rfl
  obtain ⟨hlt, hseq, hd⟩ : pos < s.tail ∧ s.seq (pos % q.size) = pos ∧
      s.data (pos % q.size) = s.log[pos]? := by
    have := h.phase t
    rwa [hph] at this
  obtain ⟨hh, -, -⟩ := h.free_of_seq hseq
  have hwt : (s.phase t).writing = some pos := by rw [hph]; rfl
  have hW (p : Nat) : HeldAt Phase.writing s'.phase p ↔
      HeldAt Phase.writing s.phase p ∧ p ≠ pos :=
    heldAt_update_remove hwt (fun t' ht' => h.writing_unique t' t pos ht' hwt) rfl
  have hR (p : Nat) : HeldAt Phase.reading s'.phase p ↔ HeldAt Phase.reading s.phase p :=
    heldAt_update_of_eq (by rw [hph]; rfl)
  -- no consumer holds `pos`: its node would be full
  have hnr : ¬HeldAt Phase.reading s.phase pos := fun ⟨t', ht'⟩ => by
    have := h.seq_of_reading ht'
    omega
  have hseq' (i : Nat) (hi : i ≠ pos % q.size) : s'.seq i = s.seq i := by
    rw [e_seq]
    exact Function.update_of_ne hi _ _
  refine ⟨h.tail_eq, h.head_le, h.tail_le, ?_, ?_, ?_, ?_, ?_, h.results_nodup, ?_⟩
  · intro i hi
    by_cases hnode : i = pos % q.size
    · -- the node of `pos` turns full at `pos`
      subst hnode
      have hs : s'.seq (pos % q.size) = pos + 1 := by rw [e_seq, Function.update_self]
      refine ⟨pos, rfl, .full hs hlt (by have := h.tail_le; omega) hd ?_⟩
      exact iff_of_false (by omega) fun hr => hnr ((hR pos).mp hr)
    · obtain ⟨p, hp, hslot⟩ := h.slot i hi
      have hne : p ≠ pos := fun he => hnode (he ▸ hp.symm)
      have hs' : s'.seq (p % q.size) = s.seq (p % q.size) := by
        rw [hp]
        exact hseq' i hnode
      refine ⟨p, hp, ?_⟩
      cases hslot with
      | free hs hh hl hc =>
        exact .free (hs'.trans hs) hh hl (hc.trans ((hW p).trans (and_iff_left hne)).symm)
      | full hs ht hl hd hc => exact .full (hs'.trans hs) ht hl hd (hc.trans (hR p).symm)
  · intro t'
    by_cases heq : t' = t
    · subst heq
      show PhaseOk q s' (Function.update s.phase t' .idle t')
      rw [Function.update_self]
      trivial
    · show PhaseOk q s' (Function.update s.phase t .idle t')
      rw [Function.update_of_ne heq]
      refine (h.phase t').transport h.head_le le_rfl le_rfl ?_ (fun _ _ => rfl) ?_
      · intro i
        by_cases hi : i = pos % q.size
        · rw [hi, e_seq, Function.update_self, hseq]
          omega
        · rw [hseq' i hi]
      · intro x hx
        exact ⟨hseq' _ (h.mod_ne_of_holds heq hx (.inl hwt)), rfl⟩
  · exact unique_update h.writing_unique fun x hx => by cases hx
  · exact unique_update h.reading_unique fun x hx => by cases hx
  · intro r hr'
    obtain ⟨hlt', hv, hnot⟩ := h.results r hr'
    exact ⟨hlt', hv, (hR r.1).not.mpr hnot⟩
  · intro p hp hnot
    exact h.results_complete p hp ((hR p).not.mp hnot)

/-- A consumer's compare-exchange that claims `pos`: `head_` moves past it. -/
lemma Inv.claimRead (h : Inv q s) {t : τ} {pos : Nat} (hph : s.phase t = .deqCas pos)
    (hhead : s.head = pos) : Inv q { s.setPhase t (.deqRead pos) with head := pos + 1 } := by
  show Inv q ⟨s.tail, pos + 1, s.seq, s.data, Function.update s.phase t (.deqRead pos), s.log,
    s.results⟩
  set s' : State τ α := ⟨s.tail, pos + 1, s.seq, s.data, Function.update s.phase t (.deqRead pos),
    s.log, s.results⟩ with hs'
  have e_tail : s'.tail = s.tail := rfl
  have e_head : s'.head = pos + 1 := rfl
  have hseq := h.seq_head_of_deqCas hph hhead
  obtain ⟨htl, hlap, hd, hclaim⟩ := h.full_of_seq hseq
  have hfree : ¬HeldAt Phase.reading s.phase pos := fun hr => by
    have := hclaim.mpr hr
    omega
  have hW (p : Nat) : HeldAt Phase.writing s'.phase p ↔ HeldAt Phase.writing s.phase p :=
    heldAt_update_of_eq (by rw [hph]; rfl)
  have hR (p : Nat) : HeldAt Phase.reading s'.phase p ↔ HeldAt Phase.reading s.phase p ∨ p = pos :=
    heldAt_update_add (by rw [hph]; rfl) rfl
  refine ⟨h.tail_eq, by omega, by omega, ?_, ?_, ?_, ?_, ?_, h.results_nodup, ?_⟩
  · intro i hi
    obtain ⟨p, hp, hslot⟩ := h.slot i hi
    by_cases hnode : p % q.size = pos % q.size
    · -- the node of `pos`: still full at `pos`, now claimed by `t`
      refine ⟨pos, hnode ▸ hp, .full hseq htl hlap hd ?_⟩
      exact iff_of_true (by omega) ((hR pos).mpr (.inr rfl))
    · have hne : p ≠ pos := fun he => hnode (he ▸ rfl)
      refine ⟨p, hp, ?_⟩
      cases hslot with
      | free hs hh hl hc => exact .free hs (by omega) (by omega) (hc.trans (hW p).symm)
      | full hs ht hl hd hc =>
        refine .full hs ht hl hd ?_
        rw [hR p, ← hc, or_iff_left hne, e_head]
        omega
  · intro t'
    by_cases heq : t' = t
    · subst heq
      show PhaseOk q s' (Function.update s.phase t' (.deqRead pos) t')
      rw [Function.update_self]
      exact ⟨by omega, hseq⟩
    · show PhaseOk q s' (Function.update s.phase t (.deqRead pos) t')
      rw [Function.update_of_ne heq]
      exact (h.phase t').transport h.head_le le_rfl (by omega) (fun _ => le_rfl) (fun _ _ => rfl)
        fun _ _ => ⟨rfl, rfl⟩
  · exact unique_update h.writing_unique fun x hx => by cases hx
  · exact unique_update h.reading_unique fun x hx t' _ hx' => by
      cases hx
      exact hfree ⟨t', hx'⟩
  · intro r hr'
    obtain ⟨hlt, hv, hnot⟩ := h.results r hr'
    refine ⟨by omega, hv, ?_⟩
    rw [hR r.1, not_or]
    exact ⟨hnot, by omega⟩
  · intro p hp hnot
    rw [hR p, not_or] at hnot
    obtain ⟨hnot, hne⟩ := hnot
    exact h.results_complete p (by omega) hnot

/-- A consumer reads the value of the node of the position it holds. -/
lemma Inv.read (h : Inv q s) {t : τ} {pos : Nat} (hph : s.phase t = .deqRead pos) :
    Inv q (s.setPhase t (.deqRelease pos (s.data (pos % q.size)))) := by
  obtain ⟨hlt, hseq⟩ : pos < s.head ∧ s.seq (pos % q.size) = pos + 1 := by
    have := h.phase t
    rwa [hph] at this
  obtain ⟨-, -, hd, -⟩ := h.full_of_seq hseq
  exact h.setPhase hph rfl rfl ⟨hlt, hseq, hd⟩

/-- A consumer releases the node of its position: the sequence number moves a lap past the
position, which frees the node for the producer of the next lap, and the dequeue returns. -/
lemma Inv.release (h : Inv q s) {t : τ} {pos : Nat} {v : Option α}
    (hph : s.phase t = .deqRelease pos v) :
    Inv q { s.setPhase t .idle with
      seq := Function.update s.seq (pos % q.size) (pos + (q.size - 1) + 1)
      results := s.results ++ [(pos, v)] } := by
  show Inv q ⟨s.tail, s.head, Function.update s.seq (pos % q.size) (pos + (q.size - 1) + 1),
    s.data, Function.update s.phase t .idle, s.log, s.results ++ [(pos, v)]⟩
  set s' : State τ α := ⟨s.tail, s.head,
    Function.update s.seq (pos % q.size) (pos + (q.size - 1) + 1), s.data,
    Function.update s.phase t .idle, s.log, s.results ++ [(pos, v)]⟩ with hs'
  have e_tail : s'.tail = s.tail := rfl
  have e_head : s'.head = s.head := rfl
  have e_seq : s'.seq = Function.update s.seq (pos % q.size) (pos + (q.size - 1) + 1) := rfl
  have e_results : s'.results = s.results ++ [(pos, v)] := rfl
  have hn := q.two_le
  obtain ⟨hlt, hseq, hv⟩ : pos < s.head ∧ s.seq (pos % q.size) = pos + 1 ∧ v = s.log[pos]? := by
    have := h.phase t
    rwa [hph] at this
  obtain ⟨-, hlap, -, -⟩ := h.full_of_seq hseq
  have hrt : (s.phase t).reading = some pos := by rw [hph]; rfl
  have hW (p : Nat) : HeldAt Phase.writing s'.phase p ↔ HeldAt Phase.writing s.phase p :=
    heldAt_update_of_eq (by rw [hph]; rfl)
  have hR (p : Nat) : HeldAt Phase.reading s'.phase p ↔
      HeldAt Phase.reading s.phase p ∧ p ≠ pos :=
    heldAt_update_remove hrt (fun t' ht' => h.reading_unique t' t pos ht' hrt) rfl
  have hseq' (i : Nat) (hi : i ≠ pos % q.size) : s'.seq i = s.seq i := by
    rw [e_seq]
    exact Function.update_of_ne hi _ _
  -- no producer holds the next lap's position: its node would be free
  have hnw : ¬HeldAt Phase.writing s.phase (pos + q.size) := fun ⟨t', ht'⟩ => by
    have := h.seq_of_writing ht'
    rw [Nat.add_mod_right] at this
    omega
  refine ⟨h.tail_eq, h.head_le, h.tail_le, ?_, ?_, ?_, ?_, ?_, ?_, ?_⟩
  · intro i hi
    by_cases hnode : i = pos % q.size
    · -- the node of `pos` turns free at `pos + size_`
      subst hnode
      have hs : s'.seq ((pos + q.size) % q.size) = pos + q.size := by
        rw [Nat.add_mod_right, e_seq, Function.update_self]
        omega
      have hht := h.head_le
      refine ⟨pos + q.size, Nat.add_mod_right _ _, .free hs (by omega) (by omega) ?_⟩
      exact iff_of_false (by omega) fun hw => hnw ((hW _).mp hw)
    · obtain ⟨p, hp, hslot⟩ := h.slot i hi
      have hne : p ≠ pos := fun he => hnode (he ▸ hp.symm)
      have hs' : s'.seq (p % q.size) = s.seq (p % q.size) := by
        rw [hp]
        exact hseq' i hnode
      refine ⟨p, hp, ?_⟩
      cases hslot with
      | free hs hh hl hc => exact .free (hs'.trans hs) hh hl (hc.trans (hW p).symm)
      | full hs ht hl hd hc =>
        exact .full (hs'.trans hs) ht hl hd (hc.trans ((hR p).trans (and_iff_left hne)).symm)
  · intro t'
    by_cases heq : t' = t
    · subst heq
      show PhaseOk q s' (Function.update s.phase t' .idle t')
      rw [Function.update_self]
      trivial
    · show PhaseOk q s' (Function.update s.phase t .idle t')
      rw [Function.update_of_ne heq]
      refine (h.phase t').transport h.head_le le_rfl le_rfl ?_ (fun _ _ => rfl) ?_
      · intro i
        by_cases hi : i = pos % q.size
        · rw [hi, e_seq, Function.update_self, hseq]
          omega
        · rw [hseq' i hi]
      · intro x hx
        exact ⟨hseq' _ (h.mod_ne_of_holds heq hx (.inr hrt)), rfl⟩
  · exact unique_update h.writing_unique fun x hx => by cases hx
  · exact unique_update h.reading_unique fun x hx => by cases hx
  · intro r hr'
    rw [e_results, List.mem_append, List.mem_singleton] at hr'
    rcases hr' with hr' | rfl
    · obtain ⟨hlt', hv', hnot⟩ := h.results r hr'
      exact ⟨hlt', hv', fun hr => hnot ((hR r.1).mp hr).1⟩
    · exact ⟨hlt, hv, fun hr => ((hR pos).mp hr).2 rfl⟩
  · -- `t` held `pos`, so no dequeue that returned before took it
    have hnew : pos ∉ s.results.map Prod.fst := fun hmem => by
      obtain ⟨r, hr', hr1⟩ := List.mem_map.mp hmem
      exact (h.results r hr').2.2 (hr1 ▸ ⟨t, hrt⟩)
    rw [e_results, List.map_append, List.map_singleton, ← List.concat_eq_append]
    exact h.results_nodup.concat hnew
  · intro p hp hnot
    rw [e_results, List.map_append, List.mem_append]
    by_cases hpe : p = pos
    · exact .inr (by simp [hpe])
    · exact .inl (h.results_complete p hp fun hr => hnot ((hR p).mpr ⟨hr, hpe⟩))

/-- Every step keeps the invariant: the calls that begin and the phases that move a thread
without claiming or touching a node directly, and the five steps that do by the lemmas above. -/
theorem Inv.step (h : Inv q s) {a : Action τ α} {s' : State τ α} (hs : step q s a = some s') :
    Inv q s' := by
  cases a with
  | enqueue t d =>
    rw [MPMCQueue.step] at hs
    split_ifs at hs with hidle
    cases hs
    exact h.setPhase (Phase.eq_idle_of_isIdle hidle) rfl rfl trivial
  | dequeue t =>
    rw [MPMCQueue.step] at hs
    split_ifs at hs with hidle
    cases hs
    exact h.setPhase (Phase.eq_idle_of_isIdle hidle) rfl rfl trivial
  | next t sp =>
    cases hph : s.phase t with
    | idle => simp only [MPMCQueue.step, hph, reduceCtorEq] at hs
    | enqLoadTail d =>
      simp only [MPMCQueue.step, hph, Option.some.injEq] at hs
      subst hs
      exact h.setPhase hph rfl rfl le_rfl
    | enqLoadSeq d pos =>
      have hok : pos ≤ s.tail := by
        have := h.phase t
        rwa [hph] at this
      simp only [MPMCQueue.step, hph, QueueSize.index_eq_mod] at hs
      split_ifs at hs with hzero hneg <;> cases hs
      · exact h.setPhase hph rfl rfl ⟨hok, by omega⟩
      · exact h.setPhase hph rfl rfl trivial
      · exact h.setPhase hph rfl rfl trivial
    | enqCas d pos =>
      simp only [MPMCQueue.step, hph] at hs
      split_ifs at hs with hcas <;> cases hs
      · exact h.claimWrite hph hcas.1
      · exact h.setPhase hph rfl rfl le_rfl
    | enqWrite d pos =>
      simp only [MPMCQueue.step, hph, QueueSize.index_eq_mod, Option.some.injEq] at hs
      subst hs
      exact h.write hph
    | enqPublish pos =>
      simp only [MPMCQueue.step, hph, QueueSize.index_eq_mod, Option.some.injEq] at hs
      subst hs
      exact h.publish hph
    | deqLoadHead =>
      simp only [MPMCQueue.step, hph, Option.some.injEq] at hs
      subst hs
      exact h.setPhase hph rfl rfl le_rfl
    | deqLoadSeq pos =>
      have hok : pos ≤ s.head := by
        have := h.phase t
        rwa [hph] at this
      simp only [MPMCQueue.step, hph, QueueSize.index_eq_mod] at hs
      split_ifs at hs with hzero hneg <;> cases hs
      · exact h.setPhase hph rfl rfl ⟨hok, by omega⟩
      · exact h.setPhase hph rfl rfl trivial
      · exact h.setPhase hph rfl rfl trivial
    | deqCas pos =>
      simp only [MPMCQueue.step, hph] at hs
      split_ifs at hs with hcas <;> cases hs
      · exact h.claimRead hph hcas.1
      · exact h.setPhase hph rfl rfl le_rfl
    | deqRead pos =>
      simp only [MPMCQueue.step, hph, QueueSize.index_eq_mod, Option.some.injEq] at hs
      subst hs
      exact h.read hph
    | deqRelease pos v =>
      simp only [MPMCQueue.step, hph, QueueSize.index_eq_mod, Option.some.injEq] at hs
      subst hs
      exact h.release hph

end Steps

/-- A new queue: every node is free at its own index, the first lap. -/
theorem inv_init : Inv q (init : State τ α) where
  tail_eq := rfl
  head_le := le_rfl
  tail_le := Nat.zero_le _
  slot i hi := ⟨i, Nat.mod_eq_of_lt hi, .free (Nat.mod_eq_of_lt hi) (Nat.zero_le i)
    (by show i < 0 + q.size; omega) (iff_of_false (Nat.not_lt_zero i) fun ⟨_, ht⟩ => by cases ht)⟩
  phase _ := trivial
  writing_unique _ _ _ ht := by cases ht
  reading_unique _ _ _ ht := by cases ht
  results _ hr := by cases hr
  results_nodup := List.nodup_nil
  results_complete _ hp := absurd hp (Nat.not_lt_zero _)

/-- The invariant holds in every state an interleaving reaches. -/
theorem Reachable.inv [DecidableEq τ] (h : Reachable q s) : Inv q s := by
  induction h with
  | init => exact inv_init
  | step a _ hstep ih => exact ih.step hstep


end CassandraDriver.MPMCQueue
