import Mathlib.Data.List.Chain
import Mathlib.Data.List.Nodup
import Mathlib.Data.List.Perm.Subperm
import Mathlib.Logic.Relation

/-!
# Depth-first search

Two traversals of a graph that is given by its successors, with fuel for the depth.

* `visit`, `sort`: the topological order that a search finishes its nodes in, or a cycle.
* `sort_ok`, `sort_cycle`, `sort_not_deep`: what the order is, that the cycle is one, and that fuel for
  the number of nodes is enough.
* `Closed.acyclic`: a graph with such an order has no cycle.
* `reach`, `mem_reach_iff`: the nodes that are reached from one.
-/

namespace Lionden.Dfs

variable {α β : Type} [DecidableEq α] (adj : α → List α) (emit : α → List β)

/-- `b` is a successor of `a`. -/
def Edge (a b : α) : Prop := b ∈ adj a

/-- A path along edges that ends where it begins. -/
def IsCycle (path : List α) : Prop :=
  ∃ x inner, path = x :: (inner ++ [x]) ∧ List.IsChain (Edge adj) path

/-- Every node of the list comes after all its successors. -/
def Closed (l : List α) : Prop := ∀ p x q, l = p ++ x :: q → ∀ y ∈ adj x, y ∈ p

variable {adj}

omit [DecidableEq α] in
theorem Closed.snoc {l : List α} {x : α} (h : Closed adj l) (hx : ∀ y ∈ adj x, y ∈ l) :
    Closed adj (l ++ [x]) := by
  intro p z q heq y hy
  rcases List.eq_nil_or_concat q with rfl | ⟨q', w, rfl⟩
  · obtain ⟨rfl, hz⟩ := List.append_inj' heq rfl
    cases hz
    exact hx y hy
  · have heq' : l ++ [x] = (p ++ z :: q') ++ [w] := by rw [heq]; simp
    obtain ⟨rfl, -⟩ := List.append_inj' heq' rfl
    exact h p z q' rfl y hy

/-- An edge leads backwards in the list. -/
theorem Closed.idxOf_lt {l : List α} (h : Closed adj l) (hnodup : l.Nodup) {x y : α} (hx : x ∈ l)
    (hy : y ∈ adj x) : y ∈ l ∧ l.idxOf y < l.idxOf x := by
  obtain ⟨p, q, rfl⟩ := List.append_of_mem hx
  have hyp : y ∈ p := h p x q rfl y hy
  have hxp : x ∉ p := fun hxp =>
    (List.nodup_append.mp hnodup).2.2 x hxp x (List.mem_cons_self) rfl
  refine ⟨List.mem_append_left _ hyp, ?_⟩
  rw [List.idxOf_append_of_mem hyp, List.idxOf_append_of_notMem hxp]
  have := List.idxOf_lt_length_of_mem hyp
  omega

theorem Closed.transGen {l : List α} (h : Closed adj l) (hnodup : l.Nodup) {x y : α} (hx : x ∈ l)
    (hxy : Relation.TransGen (Edge adj) x y) : y ∈ l ∧ l.idxOf y < l.idxOf x := by
  induction hxy with
  | single hy => exact h.idxOf_lt hnodup hx hy
  | tail _ hz ih =>
    obtain ⟨hmem, hlt⟩ := h.idxOf_lt hnodup ih.1 hz
    exact ⟨hmem, hlt.trans ih.2⟩

/-- A graph with such an order has no cycle. -/
theorem Closed.acyclic {l : List α} (h : Closed adj l) (hnodup : l.Nodup) {x : α} (hx : x ∈ l) :
    ¬Relation.TransGen (Edge adj) x x :=
  fun hxx => absurd (h.transGen hnodup hx hxx).2 (Nat.lt_irrefl _)

omit [DecidableEq α] in
theorem transGen_of_isChain {z x : α} {inner : List α}
    (h : List.IsChain (Edge adj) (z :: (inner ++ [x]))) : Relation.TransGen (Edge adj) z x := by
  induction inner generalizing z with
  | nil => exact .single (List.isChain_cons_cons.mp h).1
  | cons w inner ih =>
    obtain ⟨hzw, hw⟩ := List.isChain_cons_cons.mp h
    exact .head hzw (ih hw)

omit [DecidableEq α] in
theorem IsCycle.transGen {path : List α} (h : IsCycle adj path) :
    ∃ x ∈ path, Relation.TransGen (Edge adj) x x := by
  obtain ⟨x, inner, rfl, hchain⟩ := h
  exact ⟨x, List.mem_cons_self, transGen_of_isChain hchain⟩

/-! ## Topological order -/

/-- The finished nodes in the order in which they were finished, those that the search is inside of,
and what the finished nodes have put out. -/
structure State (α β : Type) where
  visited : List α
  visiting : List α
  out : List β

inductive Failure (α : Type) where
  | cycle (path : List α)
  /-- The fuel has run out. -/
  | deep

variable (adj)

def visit : Nat → List α → State α β → α → Except (Failure α) (State α β)
  | 0, _, _, _ => .error .deep
  | fuel + 1, stack, s, x =>
    if x ∈ s.visited then .ok s
    else if x ∈ s.visiting then .error (.cycle (stack.drop (stack.idxOf x) ++ [x]))
    else do
      let s' ← (adj x).foldlM (visit fuel (stack ++ [x])) { s with visiting := s.visiting ++ [x] }
      .ok { visited := s'.visited ++ [x], visiting := s'.visiting.erase x, out := s'.out ++ emit x }

/-- A search from each of the nodes that it has not come to before. -/
def sort (fuel : Nat) (nodes : List α) : Except (Failure α) (State α β) :=
  nodes.foldlM (visit adj emit fuel []) ⟨[], [], []⟩

/-- The invariant of the search. -/
structure Sorted (s : State α β) : Prop where
  nodup : s.visited.Nodup
  closed : Closed adj s.visited
  disjoint : ∀ x ∈ s.visiting, x ∉ s.visited
  visiting : s.visiting.Nodup
  out : s.out = s.visited.flatMap emit

/-- A search leaves the nodes that it is inside of unfinished, and finishes only nodes of `P`. -/
structure Extends (P : α → Prop) (s s' : State α β) : Prop where
  visiting : s'.visiting = s.visiting
  visited : ∃ new, s'.visited = s.visited ++ new ∧ ∀ x ∈ new, P x

variable {adj emit}

omit [DecidableEq α] in
theorem Extends.refl {P : α → Prop} (s : State α β) : Extends P s s := ⟨rfl, [], by simp⟩

omit [DecidableEq α] in
theorem Extends.trans {P : α → Prop} {s t u : State α β} (h : Extends P s t)
    (h' : Extends P t u) : Extends P s u := by
  obtain ⟨hst, new, hnew, hP⟩ := h
  obtain ⟨htu, new', hnew', hP'⟩ := h'
  refine ⟨htu.trans hst, new ++ new', by rw [hnew', hnew, List.append_assoc], fun x hx => ?_⟩
  exact (List.mem_append.mp hx).elim (hP x) (hP' x)

omit [DecidableEq α] in
theorem Extends.mem {P : α → Prop} {s s' : State α β} (h : Extends P s s') {x : α}
    (hx : x ∈ s.visited) : x ∈ s'.visited := by
  obtain ⟨-, new, hnew, -⟩ := h
  rw [hnew]
  exact List.mem_append_left _ hx

omit [DecidableEq α] in
/-- What every successful step of a fold preserves, the fold preserves. -/
theorem foldlM_ok {P : α → Prop} {f : State α β → α → Except (Failure α) (State α β)}
    (hf : ∀ s x s', f s x = .ok s' → P x → Sorted adj emit s →
      Sorted adj emit s' ∧ Extends P s s' ∧ x ∈ s'.visited)
    {xs : List α} (hxs : ∀ x ∈ xs, P x) {s s' : State α β} (h : xs.foldlM f s = .ok s')
    (hs : Sorted adj emit s) :
    Sorted adj emit s' ∧ Extends P s s' ∧ ∀ x ∈ xs, x ∈ s'.visited := by
  induction xs generalizing s with
  | nil =>
    cases h
    exact ⟨hs, .refl _, by simp⟩
  | cons x xs ih =>
    rw [List.foldlM_cons] at h
    cases hx : f s x with
    | error e =>
      rw [hx] at h
      exact nomatch h
    | ok t =>
      rw [hx] at h
      obtain ⟨ht, hst, hmem⟩ := hf s x t hx (hxs x List.mem_cons_self) hs
      obtain ⟨hs', hts', hall⟩ := ih (fun y hy => hxs y (List.mem_cons_of_mem x hy)) h ht
      exact ⟨hs', hst.trans hts', List.forall_mem_cons.mpr ⟨hts'.mem hmem, hall⟩⟩

omit [DecidableEq α] in
theorem Sorted.enter {s : State α β} (hs : Sorted adj emit s) {x : α} (hvisited : x ∉ s.visited)
    (hvisiting : x ∉ s.visiting) :
    Sorted adj emit { s with visiting := s.visiting ++ [x] } := by
  refine ⟨hs.nodup, hs.closed, fun y hy => ?_, ?_, hs.out⟩
  · rcases List.mem_append.mp hy with hy | hy
    · exact hs.disjoint y hy
    · rwa [List.mem_singleton.mp hy]
  · exact List.nodup_append.mpr ⟨hs.visiting, List.nodup_singleton x, fun a ha b hb heq =>
      hvisiting (by rwa [← List.mem_singleton.mp hb, ← heq])⟩

/-- **A search that succeeds** has finished its node, and keeps the invariant. -/
theorem visit_ok {P : α → Prop} (hP : ∀ x, P x → ∀ y ∈ adj x, P y) {fuel : Nat} {stack : List α}
    {s s' : State α β} {x : α} (h : visit adj emit fuel stack s x = .ok s') (hx : P x)
    (hs : Sorted adj emit s) :
    Sorted adj emit s' ∧ Extends P s s' ∧ x ∈ s'.visited := by
  induction fuel generalizing stack s s' x with
  | zero => exact nomatch h
  | succ fuel ih =>
    unfold visit at h
    split at h
    · next hvisited =>
      cases h
      exact ⟨hs, .refl s, hvisited⟩
    split at h
    · exact nomatch h
    next hvisited hvisiting =>
    cases hfold : (adj x).foldlM (visit adj emit fuel (stack ++ [x]))
        { s with visiting := s.visiting ++ [x] } with
    | error e =>
      rw [hfold] at h
      exact nomatch h
    | ok t =>
      rw [hfold] at h
      cases h
      obtain ⟨ht, hext, hall⟩ :=
        foldlM_ok (fun s x s' h hx hs => ih h hx hs) (hP x hx) hfold (hs.enter hvisited hvisiting)
      have herase : t.visiting.erase x = s.visiting := by
        rw [hext.visiting]
        exact List.erase_append_right _ hvisiting |>.trans (by simp)
      have hxt : x ∉ t.visited := ht.disjoint x (by rw [hext.visiting]; simp)
      refine ⟨⟨?_, ht.closed.snoc hall, fun y hy hyt => ?_, ?_, ?_⟩, ⟨herase, ?_⟩, by simp⟩
      · exact List.nodup_append.mpr ⟨ht.nodup, List.nodup_singleton x, fun a ha b hb heq =>
          hxt (by rwa [← List.mem_singleton.mp hb, ← heq])⟩
      · dsimp only at hy hyt
        rw [herase] at hy
        rcases List.mem_append.mp hyt with hyt | hyt
        · exact ht.disjoint y (by rw [hext.visiting]; exact List.mem_append_left _ hy) hyt
        · rw [List.mem_singleton.mp hyt] at hy
          exact hvisiting hy
      · show (t.visiting.erase x).Nodup
        rw [herase]
        exact hs.visiting
      · show t.out ++ emit x = (t.visited ++ [x]).flatMap emit
        rw [ht.out]
        simp
      · obtain ⟨-, new, hnew, hPnew⟩ := hext
        refine ⟨new ++ [x], ?_, fun y hy => ?_⟩
        · show t.visited ++ [x] = _
          rw [hnew, List.append_assoc]
        · rcases List.mem_append.mp hy with hy | hy
          · exact hPnew y hy
          · rwa [List.mem_singleton.mp hy]

omit [DecidableEq α] in
/-- Where the error of a fold comes from: a step whose state keeps what the steps before it keep. -/
theorem foldlM_error {P : α → Prop} {f : State α β → α → Except (Failure α) (State α β)}
    (hf : ∀ s x s', f s x = .ok s' → P x → Sorted adj emit s →
      Sorted adj emit s' ∧ Extends P s s' ∧ x ∈ s'.visited)
    {xs : List α} (hxs : ∀ x ∈ xs, P x) {s : State α β} {e : Failure α}
    (h : xs.foldlM f s = .error e) (hs : Sorted adj emit s) :
    ∃ x ∈ xs, ∃ t, Sorted adj emit t ∧ Extends P s t ∧ f t x = .error e := by
  induction xs generalizing s with
  | nil => exact nomatch h
  | cons x xs ih =>
    rw [List.foldlM_cons] at h
    cases hx : f s x with
    | error e' =>
      rw [hx] at h
      cases h
      exact ⟨x, List.mem_cons_self, s, hs, .refl s, hx⟩
    | ok t =>
      rw [hx] at h
      obtain ⟨ht, hst, -⟩ := hf s x t hx (hxs x List.mem_cons_self) hs
      obtain ⟨y, hy, u, hu, htu, hfail⟩ :=
        ih (fun y hy => hxs y (List.mem_cons_of_mem x hy)) h ht
      exact ⟨y, List.mem_cons_of_mem x hy, u, hu, hst.trans htu, hfail⟩

/-- **A search that fails** has found a cycle, if its stack is the path to its node. -/
theorem visit_cycle {fuel : Nat} {stack : List α} {s : State α β} {x : α} {path : List α}
    (h : visit adj emit fuel stack s x = .error (.cycle path)) (hs : Sorted adj emit s)
    (hstack : s.visiting = stack) (hchain : List.IsChain (Edge adj) (stack ++ [x])) :
    IsCycle adj path := by
  induction fuel generalizing stack s x with
  | zero => exact nomatch h
  | succ fuel ih =>
    unfold visit at h
    split at h
    · exact nomatch h
    split at h
    · next hvisiting =>
      cases h
      have hx : x ∈ stack := hstack ▸ hvisiting
      have hlt := List.idxOf_lt_length_of_mem hx
      have hdrop : (stack ++ [x]).drop (stack.idxOf x) = stack.drop (stack.idxOf x) ++ [x] := by
        rw [List.drop_append_of_le_length hlt.le]
      have hcons : stack.drop (stack.idxOf x) = x :: stack.drop (stack.idxOf x + 1) := by
        rw [List.drop_eq_getElem_cons hlt, List.getElem_idxOf hlt]
      refine ⟨x, stack.drop (stack.idxOf x + 1), by rw [hcons]; rfl, ?_⟩
      rw [← hdrop]
      exact hchain.drop _
    next hvisited hvisiting =>
    cases hfold : (adj x).foldlM (visit adj emit fuel (stack ++ [x]))
        { s with visiting := s.visiting ++ [x] } with
    | ok t =>
      rw [hfold] at h
      exact nomatch h
    | error e =>
      rw [hfold] at h
      cases h
      obtain ⟨y, hy, t, ht, hext, hfail⟩ :=
        foldlM_error (P := fun _ => True) (fun s x s' h hx hs => visit_ok (fun _ _ _ _ => trivial) h hx hs)
          (fun _ _ => trivial) hfold (hs.enter hvisited hvisiting)
      refine ih hfail ht (by rw [hext.visiting, hstack]) ?_
      refine hchain.append (.singleton y) fun a ha b hb => ?_
      rw [List.getLast?_concat, Option.mem_some_iff] at ha
      rw [List.head?_singleton, Option.mem_some_iff] at hb
      subst ha hb
      exact hy

/-- The cycle that a search finds is made of nodes that it is inside of. -/
theorem visit_cycle_mem {P : α → Prop} (hP : ∀ x, P x → ∀ y ∈ adj x, P y) {fuel : Nat}
    {stack : List α} {s : State α β} {x : α} {path : List α}
    (h : visit adj emit fuel stack s x = .error (.cycle path)) (hs : Sorted adj emit s)
    (hstack : ∀ y ∈ stack, P y) (hx : P x) : ∀ y ∈ path, P y := by
  induction fuel generalizing stack s x with
  | zero => exact nomatch h
  | succ fuel ih =>
    have hsnoc : ∀ y ∈ stack ++ [x], P y := fun y hy =>
      (List.mem_append.mp hy).elim (hstack y) fun hy => List.mem_singleton.mp hy ▸ hx
    unfold visit at h
    split at h
    · exact nomatch h
    split at h
    · cases h
      intro y hy
      refine hsnoc y ?_
      obtain hy | hy := List.mem_append.mp hy
      · exact List.mem_append_left _ (List.mem_of_mem_drop hy)
      · exact List.mem_append_right _ hy
    next hvisited hvisiting =>
    cases hfold : (adj x).foldlM (visit adj emit fuel (stack ++ [x]))
        { s with visiting := s.visiting ++ [x] } with
    | ok t =>
      rw [hfold] at h
      exact nomatch h
    | error e =>
      rw [hfold] at h
      cases h
      obtain ⟨y, hy, t, ht, -, hfail⟩ := foldlM_error (P := P)
        (fun s x s' h hx hs => visit_ok hP h hx hs) (hP x hx) hfold (hs.enter hvisited hvisiting)
      exact ih hfail ht hsnoc (hP x hx y hy)

/-- **The fuel is enough**: the nodes of the stack are different, so that there are no more than nodes. -/
theorem visit_not_deep {nodes : List α} (hnodes : ∀ x ∈ nodes, ∀ y ∈ adj x, y ∈ nodes) {fuel : Nat}
    {stack : List α} {s : State α β} {x : α} (hx : x ∈ nodes) (hs : Sorted adj emit s)
    (hstack : s.visiting = stack) (hsub : stack ⊆ nodes) (hfuel : nodes.length < fuel + stack.length) :
    visit adj emit fuel stack s x ≠ .error .deep := by
  induction fuel generalizing stack s x with
  | zero =>
    have hle : stack.length ≤ nodes.length :=
      (List.Nodup.subperm (hstack ▸ hs.visiting) hsub).length_le
    omega
  | succ fuel ih =>
    intro h
    unfold visit at h
    split at h
    · exact nomatch h
    split at h
    · exact nomatch h
    next hvisited hvisiting =>
    cases hfold : (adj x).foldlM (visit adj emit fuel (stack ++ [x]))
        { s with visiting := s.visiting ++ [x] } with
    | ok t =>
      rw [hfold] at h
      exact nomatch h
    | error e =>
      rw [hfold] at h
      cases h
      obtain ⟨y, hy, t, ht, hext, hfail⟩ := foldlM_error (P := fun _ => True)
        (fun s x s' h hx hs => visit_ok (fun _ _ _ _ => trivial) h hx hs) (fun _ _ => trivial) hfold
        (hs.enter hvisited hvisiting)
      refine ih (hnodes x hx y hy) ht (by rw [hext.visiting, hstack]) ?_ ?_ hfail
      · exact List.append_subset.mpr ⟨hsub, by simp [hx]⟩
      · rw [List.length_append, List.length_singleton]
        omega

section TopologicalSort

variable {nodes : List α} {fuel : Nat}

omit [DecidableEq α] in
theorem sorted_nil : Sorted adj emit (⟨[], [], []⟩ : State α β) :=
  ⟨List.nodup_nil, fun p x q h => (by simp at h), by simp, List.nodup_nil, rfl⟩

/-- What a sort returns: each node after all its successors, and what they put out in this order. -/
theorem sort_ok (hnodes : ∀ x ∈ nodes, ∀ y ∈ adj x, y ∈ nodes) {s : State α β}
    (h : sort adj emit fuel nodes = .ok s) : Sorted adj emit s ∧ ∀ x, x ∈ s.visited ↔ x ∈ nodes := by
  obtain ⟨hs, ⟨-, new, hnew, hmem⟩, hall⟩ := foldlM_ok (P := (· ∈ nodes))
    (fun s x s' h hx hs => visit_ok hnodes h hx hs) (fun _ hx => hx) h sorted_nil
  refine ⟨hs, fun x => ⟨fun hx => hmem x ?_, hall x⟩⟩
  rwa [hnew, List.nil_append] at hx

theorem sort_cycle {path : List α} (h : sort adj emit fuel nodes = .error (.cycle path)) :
    IsCycle adj path := by
  obtain ⟨x, -, t, ht, hext, hfail⟩ := foldlM_error (P := fun _ => True)
    (fun s x s' h hx hs => visit_ok (fun _ _ _ _ => trivial) h hx hs) (fun _ _ => trivial) h sorted_nil
  exact visit_cycle hfail ht hext.visiting (.singleton x)

theorem sort_cycle_mem (hnodes : ∀ x ∈ nodes, ∀ y ∈ adj x, y ∈ nodes) {path : List α}
    (h : sort adj emit fuel nodes = .error (.cycle path)) : ∀ y ∈ path, y ∈ nodes := by
  obtain ⟨x, hx, t, ht, -, hfail⟩ := foldlM_error (P := (· ∈ nodes))
    (fun s x s' h hx hs => visit_ok hnodes h hx hs) (fun _ hx => hx) h sorted_nil
  exact visit_cycle_mem hnodes hfail ht nofun hx

theorem sort_not_deep (hnodes : ∀ x ∈ nodes, ∀ y ∈ adj x, y ∈ nodes) (hfuel : nodes.length < fuel) :
    sort adj emit fuel nodes ≠ .error .deep := by
  intro h
  obtain ⟨x, hx, t, ht, hext, hfail⟩ := foldlM_error (P := (· ∈ nodes))
    (fun s x s' h hx hs => visit_ok hnodes h hx hs) (fun _ hx => hx) h sorted_nil
  exact visit_not_deep hnodes hx ht hext.visiting (List.nil_subset _) hfuel hfail

/-- A graph with a cycle is not sorted. -/
theorem sort_of_cyclic (hnodes : ∀ x ∈ nodes, ∀ y ∈ adj x, y ∈ nodes) (hfuel : nodes.length < fuel)
    {x : α} (hx : x ∈ nodes) (hcycle : Relation.TransGen (Edge adj) x x) :
    ∃ path, sort adj emit fuel nodes = .error (.cycle path) := by
  cases h : sort adj emit fuel nodes with
  | ok s =>
    obtain ⟨hs, hall⟩ := sort_ok hnodes h
    exact absurd hcycle (hs.closed.acyclic hs.nodup ((hall x).mpr hx))
  | error e =>
    cases e with
    | cycle path => exact ⟨path, rfl⟩
    | deep => exact absurd h (sort_not_deep hnodes hfuel)

end TopologicalSort

/-! ## Postorder -/

variable (adj)

/-- The nodes that are done after a search from each of a list, in depth-first postorder: a node is
done when its successors are, in their order. -/
inductive Postorder : List α → List α → List α → Prop
  | nil (done : List α) : Postorder done [] done
  | skip {done done' xs : List α} {x : α} : x ∈ done → Postorder done xs done' →
      Postorder done (x :: xs) done'
  | visit {done done' below xs : List α} {x : α} : x ∉ done → Postorder done (adj x) below →
      Postorder (below ++ [x]) xs done' → Postorder done (x :: xs) done'

variable {adj}

omit [DecidableEq α] in
/-- There is one postorder. -/
theorem Postorder.unique {done xs done₁ done₂ : List α} (h₁ : Postorder adj done xs done₁)
    (h₂ : Postorder adj done xs done₂) : done₁ = done₂ := by
  induction h₁ generalizing done₂ with
  | nil =>
    cases h₂
    rfl
  | skip hmem _ ih =>
    cases h₂ with
    | skip _ h₂ => exact ih h₂
    | visit hnot _ _ => exact absurd hmem hnot
  | visit hnot _ _ ihbelow ih =>
    cases h₂ with
    | skip hmem _ => exact absurd hmem hnot
    | visit _ hbelow h₂ =>
      obtain rfl := ihbelow hbelow
      exact ih h₂

omit [DecidableEq α] in
/-- A fold of searches that succeeds has found the postorder. -/
theorem foldlM_postorder {f : State α β → α → Except (Failure α) (State α β)}
    (hf : ∀ s x s', f s x = .ok s' →
      (x ∈ s.visited ∧ s'.visited = s.visited) ∨ (x ∉ s.visited ∧
        ∃ below, Postorder adj s.visited (adj x) below ∧ s'.visited = below ++ [x]))
    {xs : List α} {s s' : State α β} (h : xs.foldlM f s = .ok s') :
    Postorder adj s.visited xs s'.visited := by
  induction xs generalizing s with
  | nil =>
    cases h
    exact .nil _
  | cons x xs ih =>
    rw [List.foldlM_cons] at h
    cases hx : f s x with
    | error e =>
      rw [hx] at h
      exact nomatch h
    | ok t =>
      rw [hx] at h
      have hrest := ih h
      obtain ⟨hmem, ht⟩ | ⟨hnot, below, hbelow, ht⟩ := hf s x t hx
      · exact .skip hmem (ht ▸ hrest)
      · exact .visit hnot hbelow (ht ▸ hrest)

theorem visit_postorder {fuel : Nat} {stack : List α} {s s' : State α β} {x : α}
    (h : visit adj emit fuel stack s x = .ok s') :
    (x ∈ s.visited ∧ s'.visited = s.visited) ∨ (x ∉ s.visited ∧
      ∃ below, Postorder adj s.visited (adj x) below ∧ s'.visited = below ++ [x]) := by
  induction fuel generalizing stack s s' x with
  | zero => exact nomatch h
  | succ fuel ih =>
    unfold visit at h
    split at h
    · next hvisited =>
      cases h
      exact .inl ⟨hvisited, rfl⟩
    split at h
    · exact nomatch h
    next hvisited hvisiting =>
    cases hfold : (adj x).foldlM (visit adj emit fuel (stack ++ [x]))
        { s with visiting := s.visiting ++ [x] } with
    | error e =>
      rw [hfold] at h
      exact nomatch h
    | ok t =>
      rw [hfold] at h
      cases h
      have hstep := fun s y s' => @ih (stack ++ [x]) s s' y
      have hbelow := foldlM_postorder hstep hfold
      exact .inr ⟨hvisited, t.visited, hbelow, rfl⟩

theorem sort_postorder {fuel : Nat} {nodes : List α} {s : State α β}
    (h : sort adj emit fuel nodes = .ok s) : Postorder adj [] nodes s.visited :=
  foldlM_postorder (fun _ _ _ h => visit_postorder h) h

/-- Nodes that a search has come to already make no difference. -/
theorem sort_append_visited {fuel : Nat} {xs ys zs : List α}
    (h : ∀ s, sort adj emit (fuel + 1) xs = .ok s → ∀ y ∈ ys, y ∈ s.visited) :
    sort adj emit (fuel + 1) (xs ++ ys ++ zs) = sort adj emit (fuel + 1) (xs ++ zs) := by
  have hskip : ∀ {s : State α β} (ys : List α), (∀ y ∈ ys, y ∈ s.visited) →
      ys.foldlM (visit adj emit (fuel + 1) []) s = .ok s := by
    intro s ys hys
    induction ys with
    | nil => rfl
    | cons y ys ih =>
      have hy : visit adj emit (fuel + 1) [] s y = .ok s := if_pos (hys y List.mem_cons_self)
      rw [List.foldlM_cons, hy]
      exact ih fun y hy => hys y (List.mem_cons_of_mem _ hy)
  unfold sort at h ⊢
  rw [List.foldlM_append, List.foldlM_append, List.foldlM_append]
  cases hxs : xs.foldlM (visit adj emit (fuel + 1) []) ⟨[], [], []⟩ with
  | error e => rfl
  | ok s =>
    have hys := hskip ys (h s hxs)
    change (ys.foldlM _ s >>= fun t => zs.foldlM _ t) = _
    rw [hys]

/-! ## Reachability -/

variable (adj)

/-- The nodes that are reached from `x` on paths outside of `visited`, after `visited`. -/
def reach : Nat → List α → α → List α
  | 0, visited, _ => visited
  | fuel + 1, visited, x =>
    if x ∈ visited then visited else (adj x).foldl (reach fuel) (visited ++ [x])

variable {adj}

theorem reach_sound {fuel : Nat} {visited : List α} {x y : α} (h : y ∈ reach adj fuel visited x) :
    y ∈ visited ∨ Relation.ReflTransGen (Edge adj) x y := by
  induction fuel generalizing visited x with
  | zero => exact .inl h
  | succ fuel ih =>
    unfold reach at h
    split at h
    · exact .inl h
    suffices ∀ xs ⊆ adj x, ∀ visited, y ∈ xs.foldl (reach adj fuel) visited →
        y ∈ visited ∨ Relation.ReflTransGen (Edge adj) x y by
      rcases this (adj x) (List.Subset.refl _) _ h with h | h
      · rcases List.mem_append.mp h with h | h
        · exact .inl h
        · rw [List.mem_singleton.mp h]
          exact .inr .refl
      · exact .inr h
    intro xs
    induction xs with
    | nil => exact fun _ visited h => .inl h
    | cons z xs ihxs =>
      intro hxs visited h
      rcases ihxs (fun w hw => hxs (List.mem_cons_of_mem z hw)) _ h with h | h
      · exact (ih h).imp id (.head (hxs List.mem_cons_self))
      · exact .inr h

/-- The nodes that a traversal has not come to. -/
def remaining (nodes visited : List α) : Nat := (nodes.filter (· ∉ visited)).length

theorem remaining_mono {nodes visited visited' : List α} (h : visited ⊆ visited') :
    remaining nodes visited' ≤ remaining nodes visited := by
  refine (List.monotone_filter_right nodes fun x hx => ?_).length_le
  simp only [decide_eq_true_eq] at hx ⊢
  exact fun hmem => hx (h hmem)

theorem remaining_concat {nodes visited : List α} {x : α} (hx : x ∈ nodes) (hvisited : x ∉ visited) :
    remaining nodes (visited ++ [x]) < remaining nodes visited := by
  have heq : nodes.filter (· ∉ visited ++ [x]) = (nodes.filter (· ∉ visited)).filter (· ≠ x) := by
    rw [List.filter_filter]
    refine List.filter_congr fun y _ => ?_
    simp [not_or, and_comm]
  rw [remaining, heq, remaining]
  exact List.length_filter_lt_length_iff_exists.mpr ⟨x, by simp [hx, hvisited], by simp⟩

/-- A traversal with fuel for the nodes that remain comes to `x` and to all successors of the nodes
that it comes to. -/
theorem reach_closed {nodes : List α} (hnodes : ∀ x ∈ nodes, ∀ y ∈ adj x, y ∈ nodes) {fuel : Nat}
    {visited : List α} {x : α} (hx : x ∈ nodes) (hfuel : remaining nodes visited < fuel) :
    visited ⊆ reach adj fuel visited x ∧ x ∈ reach adj fuel visited x ∧
      ∀ y ∈ reach adj fuel visited x, y ∉ visited → ∀ z ∈ adj y, z ∈ reach adj fuel visited x := by
  induction fuel generalizing visited x with
  | zero => exact absurd hfuel (Nat.not_lt_zero _)
  | succ fuel ih =>
    unfold reach
    split
    · next hvisited => exact ⟨List.Subset.refl _, hvisited, fun y hy hnot => absurd hy hnot⟩
    next hvisited =>
    have hless := remaining_concat hx hvisited
    -- The successors, after some nodes that include `x`.
    have hfold : ∀ xs ⊆ adj x, ∀ visited', visited ++ [x] ⊆ visited' →
        visited' ⊆ xs.foldl (reach adj fuel) visited' ∧
        (∀ y ∈ xs, y ∈ xs.foldl (reach adj fuel) visited') ∧
        ∀ y ∈ xs.foldl (reach adj fuel) visited', y ∉ visited' →
          ∀ z ∈ adj y, z ∈ xs.foldl (reach adj fuel) visited' := by
      intro xs
      induction xs with
      | nil => exact fun _ visited' _ => ⟨List.Subset.refl _, by simp, fun y hy hnot => absurd hy hnot⟩
      | cons w xs ihxs =>
        intro hxs visited' hsub
        have hremaining : remaining nodes visited' < fuel := by
          have hmono : remaining nodes visited' ≤ remaining nodes (visited ++ [x]) :=
            remaining_mono hsub
          omega
        obtain ⟨hsub₁, hw, hclosed₁⟩ := ih (hnodes x hx w (hxs List.mem_cons_self)) hremaining
        obtain ⟨hsub₂, hall, hclosed₂⟩ :=
          ihxs (fun v hv => hxs (List.mem_cons_of_mem w hv)) _ (List.Subset.trans hsub hsub₁)
        rw [List.foldl_cons]
        refine ⟨List.Subset.trans hsub₁ hsub₂, List.forall_mem_cons.mpr ⟨hsub₂ hw, hall⟩,
          fun y hy hnot z hz => ?_⟩
        by_cases hy₁ : y ∈ reach adj fuel visited' w
        · exact hsub₂ (hclosed₁ y hy₁ hnot z hz)
        · exact hclosed₂ y hy hy₁ z hz
    obtain ⟨hsub, hall, hclosed⟩ := hfold (adj x) (List.Subset.refl _) _ (List.Subset.refl _)
    refine ⟨List.Subset.trans (List.subset_append_left visited [x]) hsub, hsub (by simp),
      fun y hy hnot z hz => ?_⟩
    by_cases hyx : y = x
    · exact hall z (hyx ▸ hz)
    · exact hclosed y hy (by simp [hnot, hyx]) z hz

/-- **A traversal comes to exactly the nodes that are reachable**. -/
theorem mem_reach_iff {nodes : List α} (hnodes : ∀ x ∈ nodes, ∀ y ∈ adj x, y ∈ nodes) {fuel : Nat}
    {x y : α} (hx : x ∈ nodes) (hfuel : nodes.length < fuel) :
    y ∈ reach adj fuel [] x ↔ Relation.ReflTransGen (Edge adj) x y := by
  have hremaining : remaining nodes [] < fuel :=
    Nat.lt_of_le_of_lt (List.length_filter_le _ _) hfuel
  obtain ⟨-, hmem, hclosed⟩ := reach_closed hnodes hx hremaining
  refine ⟨fun h => (reach_sound h).resolve_left (List.not_mem_nil), fun h => ?_⟩
  induction h with
  | refl => exact hmem
  | tail _ hyz ih => exact hclosed _ ih List.not_mem_nil _ hyz

end Lionden.Dfs
