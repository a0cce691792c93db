import Mathlib.Logic.Relation

/-!
# Fingerprints of nodes

A world has a node for each key, and a node has successors. The input of a node determines it, and
records the fingerprints of its successors. Where different inputs have different fingerprints, the
input of a node determines everything that is reached from it.

* `Same`: two worlds agree on what is reached from a key.
* `Describes`: an input describes the node of a key and, by its fingerprints, what is reached from it.
* `Describes.same`: two worlds agree where one input describes both.
-/

namespace Lionden.Merkle

variable {κ ν ι η : Type}

section Same

variable (succ : ν → List κ)

/-- `b` is a successor of the node of `a`. -/
def Edge (world : κ → Option ν) (a b : κ) : Prop := ∃ v, world a = some v ∧ b ∈ succ v

/-- The worlds have the same nodes wherever the first leads from a key. -/
def Same (world world' : κ → Option ν) (a : κ) : Prop :=
  ∀ b, Relation.ReflTransGen (Edge succ world) a b → world b = world' b

variable {succ}

theorem Same.of_successors {world world' : κ → Option ν} {a : κ} (hnode : world a = world' a)
    (h : ∀ b, Edge succ world a b → Same succ world world' b) : Same succ world world' a := by
  intro c hc
  rcases Relation.ReflTransGen.cases_head hc with rfl | ⟨b, hab, hbc⟩
  · exact hnode
  · exact h b hab c hbc

end Same

/-- How nodes are read off their inputs. A node may have a name other than its key; the successors
have the names `own`. -/
structure Scheme (κ ν ι η : Type) where
  succ : ν → List κ
  own : κ → κ
  view : κ → κ → ι → ν
  fingerprint : ι → η
  recorded : ι → κ → Option η

variable (scheme : Scheme κ ν ι η)

/-- The input of the node `a` with the name `name`; all inputs below it are known ones. -/
inductive Describes (known : ι → Prop) (world : κ → Option ν) : κ → κ → ι → Prop
  | node (name a : κ) (input : ι) (inputOf : κ → ι) (hknown : known input)
      (hnode : world a = some (scheme.view name a input))
      (hrecorded : ∀ b ∈ scheme.succ (scheme.view name a input),
        scheme.recorded input b = some (scheme.fingerprint (inputOf b)))
      (hbelow : ∀ b ∈ scheme.succ (scheme.view name a input),
        Describes known world (scheme.own b) b (inputOf b)) :
      Describes known world name a input

variable {scheme}

theorem Describes.known {known : ι → Prop} {world : κ → Option ν} {name a : κ} {input : ι}
    (h : Describes scheme known world name a input) : known input := by
  cases h
  assumption

theorem Describes.mono {known known' : ι → Prop} (hmono : ∀ input, known input → known' input)
    {world : κ → Option ν} {name a : κ} {input : ι}
    (h : Describes scheme known world name a input) :
    Describes scheme known' world name a input := by
  induction h with
  | node name a input inputOf hknown hnode hrecorded _ ih =>
    exact .node name a input inputOf (hmono input hknown) hnode hrecorded ih

/-- Known inputs with the same fingerprint are the same. -/
def Unambiguous (scheme : Scheme κ ν ι η) (known : ι → Prop) : Prop :=
  ∀ input input', known input → known input' →
    scheme.fingerprint input = scheme.fingerprint input' → input = input'

/-- Where an input describes a node in two worlds, they agree on what is reached from it. -/
theorem Describes.same {known : ι → Prop} (hunambiguous : Unambiguous scheme known)
    {world world' : κ → Option ν} {name a : κ} {input : ι}
    (h : Describes scheme known world name a input)
    (h' : Describes scheme known world' name a input) :
    Same scheme.succ world world' a := by
  induction h with
  | node name a input inputOf hknown hnode hrecorded hbelow ih =>
    cases h' with
    | node _ _ _ inputOf' _ hnode' hrecorded' hbelow' =>
    refine Same.of_successors (hnode.trans hnode'.symm) ?_
    rintro b ⟨v, hv, hb⟩
    obtain rfl := Option.some.inj (hnode.symm.trans hv)
    have hfingerprint := Option.some.inj ((hrecorded b hb).symm.trans (hrecorded' b hb))
    have hinput := hunambiguous _ _ (hbelow b hb).known (hbelow' b hb).known hfingerprint
    exact ih b hb (hinput ▸ hbelow' b hb)

end Lionden.Merkle
