/-
# Lib.Relink — a linked list put into another order

A singly linked list on a heap: a node has a value and a pointer to the next one.
`Walk links p ps q` says that following the pointers from `p` visits exactly `ps`
and arrives at `q`. `relink` writes the next pointers of a list of nodes so that
each leads to its successor and the last one to `stop`. Whatever the nodes pointed
at before, the list is then walked in the new order (`relink_walk`), and nothing
but the pointers of these nodes has changed.
-/
import Mathlib

namespace CsappLab.Lib

set_option autoImplicit false

universe u v

/-- The value and the next pointer of each node, by its address. -/
abbrev Links (κ : Type u) (ν : Type v) : Type (max u v) := κ → Option (ν × κ)

namespace Links

variable {κ : Type u} {ν : Type v}

/-- `p->value`. -/
def value (links : Links κ ν) (p : κ) : Option ν := (links p).map Prod.fst

/-- `p->next`. -/
def next (links : Links κ ν) (p : κ) : Option κ := (links p).map Prod.snd

def Walk (links : Links κ ν) : κ → List κ → κ → Prop
  | p, [], q => p = q
  | p, node :: nodes, q => p = node ∧ ∃ after, links.next p = some after ∧
      links.Walk after nodes q

variable {links links' : Links κ ν} [DecidableEq κ]

/-- `p->next = after`. -/
def setNext (links : Links κ ν) (p after : κ) : Option (Links κ ν) :=
  (links p).map fun node => Function.update links p (some (node.1, after))

/-- Each node leads to the one after it, the last one to `stop`. -/
def relink (stop : κ) : κ → List κ → Links κ ν → Option (Links κ ν)
  | p, [], links => links.setNext p stop
  | p, after :: nodes, links => (links.setNext p after).bind (relink stop after nodes)

theorem setNext_spec {p : κ} (after : κ) (there : (links p).isSome) :
    ∃ links', links.setNext p after = some links' ∧ links'.next p = some after ∧
      (∀ q, links'.value q = links.value q) ∧ ∀ q, q ≠ p → links' q = links q := by
  obtain ⟨node, found⟩ := Option.isSome_iff_exists.1 there
  refine ⟨Function.update links p (some (node.1, after)), ?_, ?_, ?_, ?_⟩
  · rw [setNext, found, Option.map_some]
  · rw [next, Function.update_self, Option.map_some]
  · intro q
    by_cases same : q = p
    · rw [same, value, value, Function.update_self, found, Option.map_some, Option.map_some]
    · rw [value, value, Function.update_of_ne same]
  · intro q other
    exact Function.update_of_ne other _ _

/-- **A relinked list is walked in the new order.** -/
theorem relink_walk (stop : κ) {p : κ} {nodes : List κ} (distinct : (p :: nodes).Nodup)
    (there : ∀ a ∈ p :: nodes, (links a).isSome) :
    ∃ links', relink stop p nodes links = some links' ∧ links'.Walk p (p :: nodes) stop ∧
      (∀ q, links'.value q = links.value q) ∧ ∀ q, q ∉ p :: nodes → links' q = links q := by
  induction nodes generalizing p links with
  | nil =>
      obtain ⟨links', wrote, goes, values, others⟩ :=
        setNext_spec stop (there p List.mem_cons_self)
      refine ⟨links', wrote, ⟨rfl, stop, goes, rfl⟩, values, fun q outside => ?_⟩
      exact others q fun same => outside (same ▸ List.mem_cons_self)
  | cons after nodes ih =>
      obtain ⟨first, wrote, goes, values, others⟩ :=
        setNext_spec after (there p List.mem_cons_self)
      have apart := (List.nodup_cons.1 distinct).1
      have still : ∀ a ∈ after :: nodes, (first a).isSome := by
        intro a member
        rw [others a fun same => apart (same ▸ member)]
        exact there a (List.mem_cons_of_mem _ member)
      obtain ⟨links', rest, walk, values', others'⟩ := ih (List.nodup_cons.1 distinct).2 still
      refine ⟨links', ?_, ⟨rfl, after, ?_, walk⟩, fun q => ?_, fun q outside => ?_⟩
      · rw [relink, wrote, Option.bind_some, rest]
      · rw [next, others' p apart]
        exact goes
      · rw [values', values]
      · rw [others' q fun member => outside (List.mem_cons_of_mem _ member),
          others q fun same => outside (same ▸ List.mem_cons_self)]

end Links

end CsappLab.Lib
