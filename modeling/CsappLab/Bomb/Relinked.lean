/-
# Bomb.Relinked — `phase_6` sorts a list in place

The numbers of `phase_6` choose an order of the six nodes: number `n` stands for node
`7 - n`. They are accepted if they are a rearrangement of 1 to 6 that puts the values in
descending order (`Arranges`). Then the list in memory has been relinked into that order,
with every value where it was, and it ends after the sixth node (`phase6On_decides`). All
of this holds for any list of six nodes, whatever its values and addresses.
-/
import CsappLab.Bomb.Bomb

namespace CsappLab.Bomb

set_option autoImplicit false

open CsappLab.Lib

/-! ## Tests -/

/-- The run returns if `P` holds, and explodes if not. -/
def Decides {α : Type} (run : Except Halt α) (P : Prop) : Prop :=
  (P → ∃ a, run = .ok a) ∧ (¬ P → run = .error .exploded)

theorem Decides.congr {α : Type} {run : Except Halt α} {P Q : Prop} (decides : Decides run P)
    (same : P ↔ Q) : Decides run Q :=
  ⟨fun q => decides.1 (same.2 q), fun notQ => decides.2 fun p => notQ (same.1 p)⟩

theorem decides_explodeIf (c : Prop) [Decidable c] : Decides (explodeIf c) (¬ c) := by
  unfold explodeIf Decides
  split
  · exact ⟨fun no => absurd ‹_› no, fun _ => rfl⟩
  · exact ⟨fun _ => ⟨(), rfl⟩, fun no => absurd ‹_› no⟩

/-- One test after the other. -/
theorem Decides.bind {α β : Type} {run : Except Halt α} {after : α → Except Halt β} {P Q : Prop}
    (first : Decides run P) (second : ∀ a, run = .ok a → Decides (after a) Q) :
    Decides (run >>= after) (P ∧ Q) := by
  by_cases holds : P
  · obtain ⟨a, ran⟩ := first.1 holds
    have rest := second a ran
    rw [ran]
    exact rest.congr ⟨fun q => ⟨holds, q⟩, And.right⟩
  · rw [first.2 holds]
    exact ⟨fun both => absurd both.1 holds, fun _ => rfl⟩

theorem decides_repeated (number : BitVec 32) (numbers : List (BitVec 32)) :
    Decides (repeated number numbers) (number ∉ numbers) := by
  induction numbers with
  | nil => exact ⟨fun _ => ⟨(), rfl⟩, fun no => absurd List.not_mem_nil no⟩
  | cons other numbers ih =>
      exact ((decides_explodeIf _).bind fun _ _ => ih).congr (by simp [not_or])

/-- A number `phase_6` accepts. -/
def InRange (number : BitVec 32) : Prop := 1 ≤ number.toNat ∧ number.toNat ≤ 6

theorem inRange_iff (number : BitVec 32) :
    ¬ ((5 : BitVec 32).ult (number - 1) = true) ↔ InRange number := by
  have bound := number.isLt
  have five : (5 : BitVec 32).toNat = 5 := rfl
  have one : (1 : BitVec 32).toNat = 1 := rfl
  rw [BitVec.ult_eq_decide, decide_eq_true_eq, BitVec.toNat_sub, five, one, InRange]
  omega

theorem decides_checkNumbers (numbers : List (BitVec 32)) :
    Decides (checkNumbers numbers) ((∀ n ∈ numbers, InRange n) ∧ numbers.Nodup) := by
  induction numbers with
  | nil => exact ⟨fun _ => ⟨(), rfl⟩, fun no => absurd ⟨by simp, List.nodup_nil⟩ no⟩
  | cons number numbers ih =>
      refine ((decides_explodeIf _).bind fun _ _ =>
        (decides_repeated number numbers).bind fun _ _ => ih).congr ?_
      rw [inRange_iff, List.nodup_cons, List.forall_mem_cons]
      tauto

/-! ## Following the list -/

section Lists

variable {nodes : Nodes} {p q : BitVec 64} {ps : List (BitVec 64)}

/-- The loop that counts down the list arrives at the node with the number `ecx`. -/
theorem follow_walk {i : Nat} (walk : nodes.Walk p ps q) (inside : i + 1 < ps.length)
    {ecx eax : BitVec 32} (count : eax.toNat + (i + 1) = ecx.toNat) {rounds : Nat}
    (enough : i < rounds) : follow nodes ecx rounds eax p = some (ps[i + 1]) := by
  induction i generalizing p ps eax rounds with
  | zero =>
      obtain ⟨rounds, rfl⟩ : ∃ n, rounds = n + 1 := ⟨rounds - 1, by omega⟩
      match ps, walk, inside with
      | _ :: _ :: _, ⟨_, after, goes, same, _⟩, _ =>
          have last : eax + 1 = ecx := by
            apply BitVec.eq_of_toNat_eq
            rw [BitVec.toNat_add, ← count]
            exact Nat.mod_eq_of_lt (count ▸ ecx.isLt)
          simp only [follow, goes, Option.bind_eq_bind, Option.bind_some, if_pos last, same]
          rfl
  | succ i ih =>
      obtain ⟨rounds, rfl⟩ : ∃ n, rounds = n + 1 := ⟨rounds - 1, by omega⟩
      match ps, walk, inside with
      | _ :: rest, ⟨_, after, goes, walk'⟩, inside =>
          have bound := ecx.isLt
          have sum : (eax + 1).toNat = eax.toNat + 1 := by
            rw [BitVec.toNat_add]
            exact Nat.mod_eq_of_lt (show eax.toNat + 1 < 2 ^ 32 by omega)
          have notLast : eax + 1 ≠ ecx := by
            intro same
            rw [← same] at count
            omega
          have inside' : i + 1 < rest.length := by simpa using inside
          have further := @ih _ rest walk' inside' (eax + 1) (by omega) rounds (by omega)
          simp only [follow, goes, Option.bind_eq_bind, Option.bind_some, if_neg notLast, further]
          rfl

theorem mapM_some {α β : Type} {f : α → Option β} {g : α → β} {l : List α}
    (each : ∀ a ∈ l, f a = some (g a)) : l.mapM f = some (l.map g) := by
  induction l with
  | nil => rfl
  | cons a l ih =>
      rw [List.mapM_cons, each a List.mem_cons_self,
        ih fun b member => each b (List.mem_cons_of_mem _ member)]
      rfl

theorem walk_mapped (walk : nodes.Walk p ps q) : ∀ a ∈ ps, (nodes a).isSome := by
  induction ps generalizing p with
  | nil => intro a member; cases member
  | cons a ps ih =>
      obtain ⟨rfl, after, goes, rest⟩ := walk
      intro b member
      rcases List.mem_cons.1 member with rfl | inRest
      · obtain ⟨node, found, -⟩ := Option.map_eq_some_iff.1 goes
        rw [found]
        rfl
      · exact ih rest b inRest

/-- The `int` in a node. -/
def valueAt (nodes : Nodes) (p : BitVec 64) : Int := ((nodes.value p).getD 0).toInt

theorem decides_descends (walk : nodes.Walk p (p :: ps) q) :
    Decides (descends nodes ps.length p)
      ((p :: ps).IsChain fun a b => valueAt nodes b ≤ valueAt nodes a) := by
  induction ps generalizing p with
  | nil => exact ⟨fun _ => ⟨(), rfl⟩, fun no => absurd (List.isChain_singleton p) no⟩
  | cons after ps ih =>
      have mapped := walk_mapped walk
      obtain ⟨-, next, goes, walk'⟩ := walk
      obtain rfl : next = after := walk'.1
      obtain ⟨here, isHere⟩ := Option.isSome_iff_exists.1 (mapped p (by simp))
      obtain ⟨there, isThere⟩ := Option.isSome_iff_exists.1 (mapped next (by simp))
      have value : nodes.value p = some here.1 := by rw [Links.value, isHere]; rfl
      have value' : nodes.value next = some there.1 := by rw [Links.value, isThere]; rfl
      have first : Decides (explodeIf (here.1.slt there.1 = true))
          (valueAt nodes next ≤ valueAt nodes p) := by
        refine (decides_explodeIf _).congr ?_
        rw [BitVec.slt_iff_toInt_lt, valueAt, valueAt, value, value', Option.getD_some,
          Option.getD_some, not_lt]
      have step : descends nodes (next :: ps).length p =
          (explodeIf (here.1.slt there.1 = true) >>= fun _ => descends nodes ps.length next) := by
        simp only [List.length_cons, descends, goes]
        change (orFault (nodes.value next) >>= _) = _
        rw [value']
        change (orFault (nodes.value p) >>= _) = _
        rw [value]
        rfl
      rw [List.isChain_cons_cons, step]
      exact first.bind fun _ _ => ih walk'

/-! ## The order that is chosen -/

/-- The node of a list of six that the number `n` stands for. -/
def pick (ps : List (BitVec 64)) (number : BitVec 32) : BitVec 64 := ps.getD (6 - number.toNat) 0

theorem pick_mem (six : ps.length = 6) {number : BitVec 32} (inRange : InRange number) :
    pick ps number ∈ ps := by
  have inside : 6 - number.toNat < ps.length := by
    have := inRange.1
    omega
  rw [pick, List.getD_eq_getElem ps 0 inside]
  exact List.getElem_mem inside

theorem pick_inj (distinct : ps.Nodup) (six : ps.length = 6) {m n : BitVec 32}
    (inRangeM : InRange m) (inRangeN : InRange n) (same : pick ps m = pick ps n) : m = n := by
  obtain ⟨leastM, mostM⟩ := inRangeM
  obtain ⟨leastN, mostN⟩ := inRangeN
  have insideM : 6 - m.toNat < ps.length := by omega
  have insideN : 6 - n.toNat < ps.length := by omega
  rw [pick, pick, List.getD_eq_getElem ps 0 insideM, List.getD_eq_getElem ps 0 insideN,
    distinct.getElem_inj_iff] at same
  apply BitVec.eq_of_toNat_eq
  omega

theorem nodeOf_walk (walk : nodes.Walk p ps q) (six : ps.length = 6) {number : BitVec 32}
    (inRange : InRange number) : nodeOf nodes p (7 - number) = some (pick ps number) := by
  obtain ⟨least, most⟩ := inRange
  have bound := number.isLt
  have count : (7 - number).toNat = 7 - number.toNat := by
    have seven : (7 : BitVec 32).toNat = 7 := rfl
    rw [BitVec.toNat_sub, seven]
    omega
  have signed : (7 - number).toInt = 7 - number.toNat := by
    rw [BitVec.toInt_eq_toNat_cond, count]
    split <;> omega
  have one : (1 : BitVec 32).toInt = 1 := rfl
  have inside : 6 - number.toNat < ps.length := by omega
  rw [pick, List.getD_eq_getElem ps 0 inside]
  simp only [nodeOf, BitVec.slt_iff_toInt_lt, one, signed]
  split
  · obtain ⟨i, isIndex⟩ : ∃ i, 6 - number.toNat = i + 1 := ⟨5 - number.toNat, by omega⟩
    have started : (1 : BitVec 32).toNat = 1 := rfl
    simp only [isIndex]
    exact follow_walk walk (by omega) (by omega) (by omega)
  · have first : 6 - number.toNat = 0 := by omega
    match ps, walk, six with
    | _ :: _, ⟨same, _⟩, _ =>
        simp only [first, List.getElem_cons_zero]
        rw [same]

/-- Different numbers stand for different nodes, six numbers for all six. -/
theorem picks_perm (distinct : ps.Nodup) (six : ps.length = 6) {numbers : List (BitVec 32)}
    (allSix : numbers.length = 6) (inRange : ∀ n ∈ numbers, InRange n)
    (different : numbers.Nodup) : (numbers.map (pick ps)).Perm ps := by
  have apart : (numbers.map (pick ps)).Nodup := by
    refine different.map_on fun m mIn n nIn same => ?_
    exact pick_inj distinct six (inRange m mIn) (inRange n nIn) same
  have among : ∀ a ∈ numbers.map (pick ps), a ∈ ps := by
    intro a member
    obtain ⟨n, nIn, rfl⟩ := List.mem_map.1 member
    exact pick_mem six (inRange n nIn)
  exact (apart.subperm among).perm_of_length_le (by rw [List.length_map, six, allSix])

/-- The numbers are a rearrangement of 1 to 6 that puts the values in descending order. -/
def Arranges (nodes : Nodes) (ps : List (BitVec 64)) (numbers : List (BitVec 32)) : Prop :=
  ((∀ n ∈ numbers, InRange n) ∧ numbers.Nodup) ∧
    (numbers.map (pick ps)).IsChain fun a b => valueAt nodes b ≤ valueAt nodes a

/-- What an accepted line leaves in memory: the nodes in descending order. -/
theorem phase6On_decides (walk : nodes.Walk p ps q) (distinct : ps.Nodup) (six : ps.length = 6)
    {numbers : List (BitVec 32)} (allSix : numbers.length = 6) :
    Decides (phase6On nodes p numbers) (Arranges nodes ps numbers) ∧
      ∀ nodes', phase6On nodes p numbers = .ok nodes' →
        ∃ first, nodes'.Walk first (numbers.map (pick ps)) 0 ∧
          ∀ r, nodes'.value r = nodes.value r := by
  by_cases checked : (∀ n ∈ numbers, InRange n) ∧ numbers.Nodup
  · obtain ⟨inRange, different⟩ := checked
    have same := picks_perm distinct six allSix inRange different
    have found : (numbers.map (7 - ·)).mapM (nodeOf nodes p) =
        some (numbers.map (pick ps)) := by
      rw [List.mapM_map]
      exact mapM_some fun n nIn => nodeOf_walk walk six (inRange n nIn)
    obtain ⟨first, pointers, isList⟩ :
        ∃ first pointers, numbers.map (pick ps) = first :: pointers :=
      List.exists_cons_of_length_pos (by rw [List.length_map]; omega)
    have five : pointers.length = 5 := by
      have lengths := congrArg List.length isList
      rw [List.length_map, List.length_cons] at lengths
      omega
    have there : ∀ a ∈ first :: pointers, (nodes a).isSome := by
      intro a member
      exact walk_mapped walk a (same.mem_iff.1 (isList ▸ member))
    have apart : (first :: pointers).Nodup := isList ▸ same.nodup_iff.2 distinct
    obtain ⟨nodes', linked, walk', values, -⟩ := Links.relink_walk 0 apart there
    have sameValues : valueAt nodes' = valueAt nodes := by
      funext r
      rw [valueAt, valueAt, values]
    obtain ⟨_, ran⟩ := (decides_checkNumbers numbers).1 ⟨inRange, different⟩
    have run : phase6On nodes p numbers =
        (descends nodes' 5 first >>= fun _ => .ok nodes') := by
      simp only [phase6On, ran, found, isList]
      change (orFault (Links.relink 0 first pointers nodes) >>= _) = _
      rw [linked]
      rfl
    have descending := decides_descends walk'
    rw [five, sameValues] at descending
    rw [run]
    refine ⟨?_, ?_⟩
    · refine (descending.bind (Q := True) fun _ _ =>
        ⟨fun _ => ⟨nodes', rfl⟩, fun no => absurd trivial no⟩).congr ?_
      rw [Arranges, isList]
      tauto
    · intro left returned
      cases result : descends nodes' 5 first with
      | error _ => rw [result] at returned; cases returned
      | ok _ =>
          rw [result] at returned
          cases returned
          exact ⟨first, isList ▸ walk', values⟩
  · have refused := (decides_checkNumbers numbers).2 checked
    have run : phase6On nodes p numbers = .error .exploded := by
      rw [phase6On, refused]
      rfl
    rw [run]
    exact ⟨⟨fun arranges => absurd arranges.1 checked, fun _ => rfl⟩, fun _ no => nomatch no⟩

/-- If no two nodes have the same value, only one line puts them in order. -/
theorem arranges_unique (distinct : ps.Nodup) (six : ps.length = 6)
    (apart : ∀ a ∈ ps, ∀ b ∈ ps, valueAt nodes a = valueAt nodes b → a = b)
    {numbers numbers' : List (BitVec 32)} (allSix : numbers.length = 6)
    (allSix' : numbers'.length = 6) (arranges : Arranges nodes ps numbers)
    (arranges' : Arranges nodes ps numbers') : numbers = numbers' := by
  obtain ⟨⟨inRange, different⟩, descending⟩ := arranges
  obtain ⟨⟨inRange', different'⟩, descending'⟩ := arranges'
  have perm := picks_perm distinct six allSix inRange different
  have perm' := picks_perm distinct six allSix' inRange' different'
  have same : numbers.map (pick ps) = numbers'.map (pick ps) := by
    refine (perm.trans perm'.symm).eq_of_pairwise ?_ descending.pairwise descending'.pairwise
    intro a b aIn bIn le ge
    exact apart a (perm.mem_iff.1 aIn) b (perm'.mem_iff.1 bIn) (le_antisymm ge le)
  apply List.ext_getElem (allSix.trans allSix'.symm)
  intro i inside inside'
  apply pick_inj distinct six (inRange _ (List.getElem_mem inside))
    (inRange' _ (List.getElem_mem inside'))
  have there : i < (numbers.map (pick ps)).length := by rwa [List.length_map]
  have each := List.getElem_of_eq same there
  rwa [List.getElem_map, List.getElem_map] at each

/-! ## The list of the bomb -/

def nodeAddresses : List (BitVec 64) :=
  [0x6032d0, 0x6032e0, 0x6032f0, 0x603300, 0x603310, 0x603320]

theorem nodeData_walk : Links.Walk nodeData 0x6032d0 nodeAddresses 0 :=
  ⟨rfl, 0x6032e0, by decide, rfl, 0x6032f0, by decide, rfl, 0x603300, by decide,
    rfl, 0x603310, by decide, rfl, 0x603320, by decide, rfl, 0, by decide, rfl⟩

theorem arranges_nodeData : Arranges nodeData nodeAddresses [4, 3, 2, 1, 6, 5] := by
  refine ⟨⟨?_, by decide⟩, ?_⟩
  · simp [InRange]
  · simp [pick, nodeAddresses, valueAt, Links.value, nodeData]

/-- **`phase_6` sorts the list in place.** -/
theorem phase6On_sorts (walk : nodes.Walk p ps q) (distinct : ps.Nodup) (six : ps.length = 6)
    {numbers : List (BitVec 32)} (allSix : numbers.length = 6) :
    Decides (phase6On nodes p numbers) (Arranges nodes ps numbers) ∧
      ∀ nodes', phase6On nodes p numbers = .ok nodes' →
        ∃ first order, nodes'.Walk first order 0 ∧ order.Perm ps ∧
          (order.Pairwise fun a b => valueAt nodes' b ≤ valueAt nodes' a) ∧
          ∀ r, nodes'.value r = nodes.value r := by
  obtain ⟨decides, leaves⟩ := phase6On_decides walk distinct six allSix
  refine ⟨decides, fun nodes' returned => ?_⟩
  obtain ⟨first, walk', values⟩ := leaves nodes' returned
  have arranges : Arranges nodes ps numbers := by
    by_contra refused
    rw [decides.2 refused] at returned
    cases returned
  obtain ⟨⟨inRange, different⟩, descending⟩ := arranges
  have sameValues : valueAt nodes' = valueAt nodes := by
    funext r
    rw [valueAt, valueAt, values]
  refine ⟨first, numbers.map (pick ps), walk', picks_perm distinct six allSix inRange different,
    ?_, values⟩
  rw [sameValues]
  exact descending.pairwise

/-- The list of the bomb is sorted by one of the lines. -/
theorem phase6On_sorts_nodeData :
    ∃ nodes', phase6On nodeData 0x6032d0 [4, 3, 2, 1, 6, 5] = .ok nodes' :=
  (phase6On_sorts nodeData_walk (by decide) rfl rfl).1.1 arranges_nodeData

end Lists

end CsappLab.Bomb
