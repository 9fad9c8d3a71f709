import CassandraDriver.TokenMap.Lookup

/-!
# Incremental maintenance of the token map

`update_host_and_build` and `remove_host_and_build` keep the ring sorted without sorting it
again: removing a host's tokens keeps the others in order, and `std::merge` of two sorted rings
is sorted. Every call but `add_host` keeps a sorted ring sorted, and `build` sorts it, so after a
`build` the ring stays sorted while hosts are only updated or removed; after an update it holds
the other hosts' tokens and the host's new ones.

Keyspaces are not maintained that way. `update_keyspaces_and_build` builds a keyspace's vector
only when the keyspace's strategy changes, so a strategy that `add_keyspaces` stored after the
last `build` never gets its vector, where a map built afresh from the same hosts and keyspaces
has one.
-/

namespace CassandraDriver

namespace TokenMapImpl

variable {τ α : Type} [LinearOrder τ]

/-- The ring is sorted by token. -/
def RingSorted (m : TokenMapImpl τ α) : Prop :=
  m.tokens.Pairwise fun a b => a.1 ≤ b.1

/-- The calls that keep a sorted ring sorted: all but `add_host`, which appends. -/
def Op.keepsRing : Op τ α → Bool
  | .addHost _ _ => false
  | _ => true

/-- `std::merge` with `TokenHostCompare` of two sorted rings is sorted. -/
lemma pairwise_merge_tokens {l l' : List (τ × α)} (h : l.Pairwise fun a b => a.1 ≤ b.1)
    (h' : l'.Pairwise fun a b => a.1 ≤ b.1) :
    (l.merge l' fun a b => !(b.1 < a.1)).Pairwise fun a b => a.1 ≤ b.1 := by
  have htrans : ∀ a b c : τ × α, (!decide (b.1 < a.1)) = true → (!decide (c.1 < b.1)) = true →
      (!decide (c.1 < a.1)) = true := by
    intro a b c hab hbc
    simp only [Bool.not_eq_true', decide_eq_false_iff_not, not_lt] at hab hbc ⊢
    exact le_trans hab hbc
  have htotal : ∀ a b : τ × α, ((!decide (b.1 < a.1)) || !decide (a.1 < b.1)) = true := by
    intro a b
    simp only [Bool.or_eq_true, Bool.not_eq_true', decide_eq_false_iff_not, not_lt]
    exact le_total a.1 b.1
  have hmerge := @List.pairwise_merge _ (fun a b => !decide (b.1 < a.1)) htrans htotal l l'
    (h.imp fun hab => by simpa using hab) (h'.imp fun hab => by simpa using hab)
  exact hmerge.imp fun hab => by simpa using hab

variable [DecidableEq α] {m : TokenMapImpl τ α}

lemma ringSorted_build (m : TokenMapImpl τ α) : RingSorted m.build :=
  pairwise_sortTokens m.tokens

lemma RingSorted.removeHostTokens (h : RingSorted m) (address : α) :
    RingSorted (m.removeHostTokens address) :=
  h.sublist List.filter_sublist

lemma RingSorted.updateHostAndBuild (h : RingSorted m) (host : Host α) (tokens : List τ) :
    RingSorted (m.updateHostAndBuild host tokens) :=
  pairwise_merge_tokens (h.removeHostTokens host.address) (pairwise_sortTokens _)

lemma RingSorted.updateKeyspace (h : RingSorted m) (rows : List KeyspaceRow) (b : Bool) :
    RingSorted (m.updateKeyspace rows b) := by
  induction rows generalizing m with
  | nil => exact h
  | cons row rows ih =>
    apply ih
    unfold RingSorted
    rw [updateKeyspaceRow_tokens]
    exact h

/-- Every call but `add_host` keeps the ring sorted. -/
lemma RingSorted.step (h : RingSorted m) (op : Op τ α) (hop : op.keepsRing) :
    RingSorted (m.step op) := by
  cases op with
  | addHost host tokens => exact absurd hop Bool.false_ne_true
  | updateHostAndBuild host tokens => exact h.updateHostAndBuild host tokens
  | removeHostAndBuild address => exact h.removeHostTokens address
  | clearTokensAndHosts => exact List.Pairwise.nil
  | addKeyspaces rows => exact h.updateKeyspace rows false
  | updateKeyspacesAndBuild rows => exact h.updateKeyspace rows true
  | dropKeyspace keyspaceName => exact h
  | clearReplicasAndStrategies => exact h
  | build => exact ringSorted_build m

/-- After a `build`, a run of calls without `add_host` keeps the ring sorted. -/
theorem ringSorted_build_run (m : TokenMapImpl τ α) {ops : List (Op τ α)}
    (hops : ∀ op ∈ ops, op.keepsRing) : RingSorted (m.build.run ops) := by
  suffices ∀ m : TokenMapImpl τ α, RingSorted m → RingSorted (m.run ops) from
    this m.build (ringSorted_build m)
  induction ops with
  | nil => exact fun m h => h
  | cons op ops ih =>
    intro m h
    exact ih (fun op' hop' => hops op' (List.mem_cons_of_mem op hop')) _
      (h.step op (hops op List.mem_cons_self))

/-- An update leaves the other hosts' tokens and the host's new ones. -/
theorem tokens_updateHostAndBuild_perm (m : TokenMapImpl τ α) (host : Host α)
    (tokens : List τ) :
    (m.updateHostAndBuild host tokens).tokens.Perm
      (m.tokens.filter (·.2 != host.address) ++ tokens.map (·, host.address)) := by
  simp only [updateHostAndBuild, buildReplicas_tokens, removeHostTokens, sortTokens]
  exact (List.merge_perm_append _).trans ((List.perm_insertionSort _ _).append_left _)

end TokenMapImpl

end CassandraDriver
