import Mathlib.Data.List.Nodup

/-!
# Lists linked by pointers to links

A node knows the link that refers to it, which is the head of a list or the next field of another
node, so that it leaves its list without knowing which one it is on. `Holds` says which nodes the
lists hold; `Holds.unlink`, `Holds.pushFront` and `Holds.splice` are the rules for the three ways
to change them.
-/
namespace BackLinks

/-- What refers to a node. -/
inductive Link (H N : Type*)
  | head (h : H)
  | next (n : N)
  deriving DecidableEq

structure Links (H N : Type*) where
  link : Link H N → Option N
  prev : N → Option (Link H N)

variable {H N : Type*}

/-! ### Loops over a list -/

/-- `while (x) { .. x = x->next; }`, for at most `fuel` nodes; the body says where it goes on. -/
def whileNode {σ : Type*} (body : N → σ → σ × Option N) : Nat → Option N → σ → Option σ
  | _, none, s => some s
  | 0, some _, _ => none
  | fuel + 1, some x, s => whileNode body fuel (body x s).2 (body x s).1

/-- The loop's invariant is about the nodes that are left. -/
theorem whileNode_invariant {σ : Type*} {body : N → σ → σ × Option N} (I : List N → σ → Prop)
    (keeps : ∀ x rest s, I (x :: rest) s → (body x s).2 = rest.head? ∧ I rest (body x s).1)
    {fuel : Nat} {ns : List N} {s s' : σ} (before : I ns s)
    (looped : whileNode body fuel ns.head? s = some s') : I [] s' := by
  induction fuel generalizing ns s with
  | zero =>
    cases ns with
    | nil =>
      cases looped
      exact before
    | cons x rest => cases looped
  | succ fuel ih =>
    cases ns with
    | nil =>
      cases looped
      exact before
    | cons x rest =>
      obtain ⟨next, after⟩ := keeps x rest s before
      change whileNode body fuel (body x s).2 (body x s).1 = some s' at looped
      rw [next] at looped
      exact ih after looped

/-- The loop ends behind the nodes that are left. -/
theorem whileNode_ends {σ : Type*} {body : N → σ → σ × Option N} (I : List N → σ → Prop)
    (keeps : ∀ x rest s, I (x :: rest) s → (body x s).2 = rest.head? ∧ I rest (body x s).1)
    {fuel : Nat} {ns : List N} {s : σ} (before : I ns s) (enough : ns.length ≤ fuel) :
    ∃ s', whileNode body fuel ns.head? s = some s' := by
  induction ns generalizing fuel s with
  | nil => exact ⟨s, by cases fuel <;> rfl⟩
  | cons x rest ih =>
    cases fuel with
    | zero => cases enough
    | succ fuel =>
      obtain ⟨next, after⟩ := keeps x rest s before
      obtain ⟨s', ends⟩ := ih after (Nat.le_of_succ_le_succ enough)
      refine ⟨s', ?_⟩
      rw [← next] at ends
      exact ends

/-- What the body keeps wherever it is, the loop keeps. -/
theorem whileNode_keeps {σ : Type*} {body : N → σ → σ × Option N} (P : σ → Prop)
    (keeps : ∀ x s, P s → P (body x s).1) {fuel : Nat} {start : Option N} {s s' : σ} (before : P s)
    (looped : whileNode body fuel start s = some s') : P s' := by
  induction fuel generalizing start s with
  | zero =>
    cases start with
    | none =>
      cases looped
      exact before
    | some x => cases looped
  | succ fuel ih =>
    cases start with
    | none =>
      cases looped
      exact before
    | some x => exact ih (keeps x s before) looped

namespace Links

/-! ### What the lists hold -/

variable (s : Links H N)

/-- The link refers to the node, and the node knows. -/
def Tied (r : Link H N) (x : N) : Prop := s.link r = some x ∧ s.prev x = some r

/-- From the link on there are exactly these nodes. -/
def Chain : Link H N → List N → Prop
  | r, [] => s.link r = none
  | r, x :: xs => s.Tied r x ∧ Chain (.next x) xs

/-- The lists of the heads that are valid; the others are not used. -/
structure Holds (valid : H → Prop) (l : H → List N) : Prop where
  chain : ∀ h, valid h → s.Chain (.head h) (l h)
  nodup : ∀ h, (l h).Nodup
  unique : ∀ {h h' n}, n ∈ l h → n ∈ l h' → h = h'
  valid : ∀ {h n}, n ∈ l h → valid h

/-- The links of a chain from `r` on. -/
def OnChain (r : Link H N) (xs : List N) (q : Link H N) : Prop := q = r ∨ ∃ x ∈ xs, q = .next x

variable {s} {s' : Links H N} {r : Link H N} {xs ys : List N} {n : N} {valid : H → Prop}
  {l : H → List N} {h : H}

theorem Chain.link_eq (chain : s.Chain r xs) : s.link r = xs.head? := by
  cases xs with
  | nil => exact chain
  | cons x xs => exact chain.1.1

/-- A chain depends on its own links and nodes. -/
theorem Chain.congr (chain : s.Chain r xs) (links : ∀ q, OnChain r xs q → s'.link q = s.link q)
    (prevs : ∀ x ∈ xs, s'.prev x = s.prev x) : s'.Chain r xs := by
  induction xs generalizing r with
  | nil => exact (links r (.inl rfl)).trans chain
  | cons x xs ih =>
    obtain ⟨⟨link, prev⟩, rest⟩ := chain
    refine ⟨⟨(links r (.inl rfl)).trans link, (prevs x (.head _)).trans prev⟩, ih rest ?_ ?_⟩
    · rintro q (rfl | ⟨y, member, rfl⟩)
      · exact links _ (.inr ⟨x, .head _, rfl⟩)
      · exact links _ (.inr ⟨y, .tail _ member, rfl⟩)
    · exact fun y member => prevs y (.tail _ member)

/-- The link in front of a node of a chain, and the chain behind the node. -/
theorem Chain.split (chain : s.Chain r (xs ++ n :: ys)) :
    ∃ q, OnChain r xs q ∧ s.Tied q n ∧ s.Chain (.next n) ys := by
  induction xs generalizing r with
  | nil => exact ⟨r, .inl rfl, chain.1, chain.2⟩
  | cons x xs ih =>
    obtain ⟨q, on, tied, rest⟩ := ih chain.2
    refine ⟨q, .inr ?_, tied, rest⟩
    rcases on with rfl | ⟨y, member, rfl⟩
    · exact ⟨x, .head _, rfl⟩
    · exact ⟨y, .tail _ member, rfl⟩

/-- A node on a list is referred to by the head or by another node of it. -/
theorem Holds.tied (holds : s.Holds valid l) (member : n ∈ l h) :
    ∃ q, s.Tied q n ∧ (q = .head h ∨ ∃ m ∈ l h, m ≠ n ∧ q = .next m) := by
  obtain ⟨front, back, eq⟩ := List.append_of_mem member
  have chain := holds.chain h (holds.valid member)
  have nodup := holds.nodup h
  rw [eq] at chain nodup
  obtain ⟨q, on, tied, -⟩ := chain.split
  refine ⟨q, tied, on.imp_right ?_⟩
  rintro ⟨m, before, rfl⟩
  refine ⟨m, eq ▸ List.mem_append_left _ before, ?_, rfl⟩
  rintro rfl
  exact List.disjoint_of_nodup_append nodup before (.head _)

/-- The lists depend on nothing but the links and nodes that are on them. -/
theorem Holds.congr (holds : s.Holds valid l)
    (heads : ∀ h, valid h → s'.link (.head h) = s.link (.head h))
    (nodes : ∀ h, ∀ x ∈ l h, s'.link (.next x) = s.link (.next x) ∧ s'.prev x = s.prev x) :
    s'.Holds valid l := by
  refine ⟨fun h valid' => ?_, holds.nodup, holds.unique, holds.valid⟩
  refine (holds.chain h valid').congr ?_ fun x member => (nodes h x member).2
  rintro q (rfl | ⟨x, member, rfl⟩)
  · exact heads h valid'
  · exact (nodes h x member).1

/-! ### The operations -/

variable [DecidableEq H] [DecidableEq N]

def setLink (s : Links H N) (q : Link H N) (x : Option N) : Links H N :=
  { s with link := Function.update s.link q x }

/-- `if (x) x->prev_p = q;` -/
def setPrev (s : Links H N) (x : Option N) (q : Option (Link H N)) : Links H N :=
  match x with
  | some x => { s with prev := Function.update s.prev x q }
  | none => s

/-- `if (n->prev_p) *(n->prev_p) = n->next; if (n->next) n->next->prev_p = n->prev_p;` -/
def unlink (s : Links H N) (n : N) : Links H N :=
  let s :=
    match s.prev n with
    | some q => s.setLink q (s.link (.next n))
    | none => s
  s.setPrev (s.link (.next n)) (s.prev n)

/-- A node that leaves and forgets where it was. -/
def detach (s : Links H N) (n : N) : Links H N :=
  ((s.unlink n).setPrev (some n) none).setLink (.next n) none

/-- The node becomes the first of a list. -/
def pushFront (s : Links H N) (h : H) (n : N) : Links H N :=
  let s := s.setPrev (s.link (.head h)) (some (.next n))
  let s := s.setLink (.next n) (s.link (.head h))
  (s.setLink (.head h) (some n)).setPrev (some n) (some (.head h))

/-- All of one list, whose last node is given, goes in front of another. -/
def splice (s : Links H N) (h h' : H) (last : N) : Links H N :=
  let s := s.setLink (.next last) (s.link (.head h'))
  let s := s.setPrev (s.link (.head h')) (some (.next last))
  let s := s.setLink (.head h') (s.link (.head h))
  let s := s.setPrev (s.link (.head h)) (some (.head h'))
  s.setLink (.head h) none

theorem setLink_link (s : Links H N) (q : Link H N) (x : Option N) (r : Link H N) :
    (s.setLink q x).link r = if r = q then x else s.link r :=
  Function.update_apply ..

omit [DecidableEq H] in
@[simp] theorem setPrev_link (s : Links H N) (x : Option N) (q : Option (Link H N)) :
    (s.setPrev x q).link = s.link := by
  cases x <;> rfl

omit [DecidableEq H] in
theorem setPrev_prev (s : Links H N) (x : Option N) (q : Option (Link H N)) (y : N) :
    (s.setPrev x q).prev y = if x = some y then q else s.prev y := by
  cases x with
  | none => rfl
  | some x =>
    simp only [setPrev, Function.update_apply, Option.some.injEq, @eq_comm N y x]

theorem unlink_link (s : Links H N) (n : N) (q : Link H N) :
    (s.unlink n).link q = if s.prev n = some q then s.link (.next n) else s.link q := by
  unfold unlink
  rw [setPrev_link]
  cases before : s.prev n with
  | none => simp
  | some p =>
    dsimp only [setLink]
    rw [Function.update_apply]
    simp only [Option.some.injEq, eq_comm]

theorem unlink_prev (other : s.prev n ≠ some (.next n)) (x : N) :
    (s.unlink n).prev x = if s.link (.next n) = some x then s.prev n else s.prev x := by
  unfold unlink
  cases before : s.prev n with
  | none => simp [setPrev_prev, before]
  | some p =>
    have apart : Link.next n ≠ p := fun same => other (by rw [before, same])
    dsimp only [setLink]
    rw [setPrev_prev, Function.update_of_ne apart, before]

/-- What the rules for one list need: no node is on it twice, and it starts elsewhere. -/
def Apart (r : Link H N) (xs : List N) : Prop := xs.Nodup ∧ ∀ x ∈ xs, r ≠ .next x

omit [DecidableEq H] [DecidableEq N] in
theorem Apart.tail {x : N} (apart : Apart r (x :: xs)) : Apart (.next x : Link H N) xs := by
  obtain ⟨absent, nodup⟩ := List.nodup_cons.mp apart.1
  refine ⟨nodup, fun y member same => absent ?_⟩
  cases same
  exact member

omit [DecidableEq H] [DecidableEq N] in
theorem Chain.not_own (chain : s.Chain r (xs ++ n :: ys)) (apart : Apart r (xs ++ n :: ys)) :
    s.prev n ≠ some (.next n) := by
  obtain ⟨q, on, tied, -⟩ := chain.split
  intro own
  cases own.symm.trans tied.2
  rcases on with start | ⟨x, before, same⟩
  · exact apart.2 n (List.mem_append_right _ (.head _)) start.symm
  · cases same
    exact List.disjoint_of_nodup_append apart.1 before (.head _)

theorem Chain.unlink (chain : s.Chain r (xs ++ n :: ys)) (apart : Apart r (xs ++ n :: ys)) :
    (s.unlink n).Chain r (xs ++ ys) := by
  have other := chain.not_own apart
  induction xs generalizing r with
  | nil =>
    obtain ⟨⟨link, prev⟩, rest⟩ := chain
    obtain ⟨absent, nodup⟩ := List.nodup_cons.mp apart.1
    cases ys with
    | nil =>
      change (s.unlink n).link r = none
      rw [unlink_link, if_pos prev]
      exact rest
    | cons y ys =>
      obtain ⟨⟨next, back⟩, rest⟩ := rest
      refine ⟨⟨?_, ?_⟩, rest.congr ?_ ?_⟩
      · rw [unlink_link, if_pos prev, next]
      · rw [unlink_prev other, if_pos next, prev]
      · -- The link that changes is in front of the node.
        intro q on
        rw [unlink_link, if_neg]
        intro same
        cases prev.symm.trans same
        rcases on with rfl | ⟨z, member, rfl⟩
        · exact apart.2 y (.tail _ (.head _)) rfl
        · exact apart.2 z (.tail _ (.tail _ member)) rfl
      · intro z member
        rw [unlink_prev other, if_neg]
        intro same
        cases next.symm.trans same
        exact (List.nodup_cons.mp nodup).1 member
  | cons x xs ih =>
    obtain ⟨⟨link, prev⟩, rest⟩ := chain
    obtain ⟨absent, -⟩ := List.nodup_cons.mp apart.1
    obtain ⟨q, -, tied, behind⟩ := rest.split
    refine ⟨⟨?_, ?_⟩, ih rest apart.tail⟩
    · rw [unlink_link, if_neg]
      · exact link
      · intro same
        cases tied.2.symm.trans same
        cases link.symm.trans tied.1
        exact absent (List.mem_append_right _ (.head _))
    · rw [unlink_prev other, if_neg]
      · exact prev
      · intro same
        rw [behind.link_eq] at same
        exact absent (List.mem_append_right _ (.tail _ (List.mem_of_head? same)))

omit [DecidableEq H] [DecidableEq N] in
theorem Holds.apart (holds : s.Holds valid l) (h : H) : Apart (.head h) (l h) :=
  ⟨holds.nodup h, fun _ _ same => by cases same⟩

omit [DecidableEq H] [DecidableEq N] in
/-- The links of one list are not those of another. -/
theorem Holds.onChain_unique (holds : s.Holds valid l) {h h' : H} {q : Link H N}
    (on : OnChain (.head h) (l h) q) (on' : OnChain (.head h') (l h') q) : h = h' := by
  rcases on with rfl | ⟨x, member, rfl⟩
  · rcases on' with same | ⟨y, -, same⟩
    · cases same
      rfl
    · cases same
  · rcases on' with same | ⟨y, member', same⟩
    · cases same
    · cases same
      exact holds.unique member member'

/-- A node leaves its list. -/
theorem Holds.unlink [BEq N] [LawfulBEq N] (holds : s.Holds valid l) (member : n ∈ l h) :
    (s.unlink n).Holds valid (Function.update l h ((l h).erase n)) := by
  have apart := holds.apart h
  obtain ⟨front, back, eq⟩ := List.append_of_mem member
  have chain := holds.chain h (holds.valid member)
  rw [eq] at chain apart
  have absent : n ∉ front := fun before => List.disjoint_of_nodup_append apart.1 before (.head _)
  have erased : (l h).erase n = front ++ back := by
    rw [eq, List.erase_append_right _ absent, List.erase_cons_head]
  obtain ⟨p, on, tied, behind⟩ := chain.split
  have on : OnChain (.head h) (l h) p := on.imp_right fun ⟨x, before, same⟩ =>
    ⟨x, eq ▸ List.mem_append_left _ before, same⟩
  have fewer {h' : H} {x : N} (left : x ∈ Function.update l h ((l h).erase n) h') : x ∈ l h' := by
    rcases Decidable.eq_or_ne h' h with rfl | other
    · rw [Function.update_self] at left
      exact List.mem_of_mem_erase left
    · rwa [Function.update_of_ne other] at left
  refine ⟨fun h' valid' => ?_, fun h' => ?_, fun left left' => holds.unique (fewer left)
    (fewer left'), fun left => holds.valid (fewer left)⟩
  · rcases Decidable.eq_or_ne h' h with rfl | other
    · rw [Function.update_self, erased]
      exact chain.unlink apart
    · -- Neither the link nor the node that changes is of another list.
      rw [Function.update_of_ne other]
      refine (holds.chain h' valid').congr (fun q on' => ?_) (fun x member' => ?_)
      · rw [unlink_link, if_neg]
        intro same
        cases tied.2.symm.trans same
        exact other (holds.onChain_unique on' on)
      · rw [unlink_prev (chain.not_own apart), if_neg]
        intro same
        rw [behind.link_eq] at same
        have here : x ∈ l h := eq ▸ List.mem_append_right _ (.tail _ (List.mem_of_head? same))
        exact other (holds.unique member' here)
  · rcases Decidable.eq_or_ne h' h with rfl | other
    · rw [Function.update_self]
      exact (holds.nodup h').erase n
    · rw [Function.update_of_ne other]
      exact holds.nodup h'

/-- Nodes on no list are not touched. -/
theorem Holds.unlink_outside (holds : s.Holds valid l) (member : n ∈ l h) {x : N}
    (outside : ∀ h, x ∉ l h) :
    (s.unlink n).prev x = s.prev x ∧ (s.unlink n).link (.next x) = s.link (.next x) := by
  have apart := holds.apart h
  obtain ⟨front, back, eq⟩ := List.append_of_mem member
  have chain := holds.chain h (holds.valid member)
  rw [eq] at chain apart
  obtain ⟨p, on, tied, behind⟩ := chain.split
  constructor
  · rw [unlink_prev (chain.not_own apart), if_neg]
    intro next
    rw [behind.link_eq] at next
    exact outside h (eq ▸ List.mem_append_right _ (.tail _ (List.mem_of_head? next)))
  · rw [unlink_link, if_neg]
    intro before
    cases tied.2.symm.trans before
    rcases on with same | ⟨y, there, same⟩ <;> cases same
    exact outside h (eq ▸ List.mem_append_left _ there)

/-- Neither on a list nor with links of one. -/
def Idle (s : Links H N) (n : N) : Prop := s.prev n = none ∧ s.link (.next n) = none

theorem unlink_idle (idle : s.Idle n) : s.unlink n = s := by
  simp only [unlink, idle.1, idle.2]
  rfl

/-- A node that may be on a list leaves it, and one that is idle may do so as well. -/
theorem Holds.unlink_idle [BEq N] [LawfulBEq N] (holds : s.Holds valid l)
    (idle : (∀ h, n ∉ l h) → s.Idle n) : (s.unlink n).Holds valid fun h => (l h).erase n := by
  by_cases somewhere : ∃ h, n ∈ l h
  · obtain ⟨h, member⟩ := somewhere
    have same : (fun k => (l k).erase n) = Function.update l h ((l h).erase n) := by
      funext k
      rcases Decidable.eq_or_ne k h with rfl | other
      · rw [Function.update_self]
      · rw [Function.update_of_ne other,
          List.erase_of_not_mem fun there => other (holds.unique there member)]
    rw [same]
    exact holds.unlink member
  · have nowhere : ∀ h, n ∉ l h := fun h member => somewhere ⟨h, member⟩
    have same : (fun k => (l k).erase n) = l := by
      funext k
      exact List.erase_of_not_mem (nowhere k)
    rw [same, Links.unlink_idle (idle nowhere)]
    exact holds

theorem detach_link (s : Links H N) (n : N) (q : Link H N) :
    (s.detach n).link q = if q = .next n then none else (s.unlink n).link q := by
  rw [detach, setLink_link, setPrev_link]

theorem detach_prev (s : Links H N) (n x : N) :
    (s.detach n).prev x = if n = x then none else (s.unlink n).prev x := by
  unfold detach
  simp only [setLink, setPrev_prev, Option.some.injEq]

theorem Holds.detach [BEq N] [LawfulBEq N] (holds : s.Holds valid l)
    (idle : (∀ h, n ∉ l h) → s.Idle n) : (s.detach n).Holds valid fun h => (l h).erase n := by
  refine (holds.unlink_idle idle).congr (fun h _ => ?_) (fun h x member => ?_)
  · rw [detach_link, if_neg nofun]
  · have other : x ≠ n := by
      rintro rfl
      exact (holds.nodup h).not_mem_erase member
    rw [detach_link, if_neg (by simpa using other), detach_prev, if_neg other.symm]
    exact ⟨rfl, rfl⟩

/-- What is on no list afterwards is idle, if what was on none before was. -/
theorem Holds.detach_idle [BEq N] [LawfulBEq N] (holds : s.Holds valid l) {x : N}
    (outside : ∀ h, x ∉ (l h).erase n) (idle : (∀ h, n ∉ l h) → s.Idle n)
    (idle_x : (∀ h, x ∉ l h) → s.Idle x) : (s.detach n).Idle x := by
  rcases Decidable.eq_or_ne x n with rfl | other
  · exact ⟨by rw [detach_prev, if_pos rfl], by rw [detach_link, if_pos rfl]⟩
  have outside : ∀ h, x ∉ l h := fun h member =>
    outside h ((List.mem_erase_of_ne other).mpr member)
  have kept : (s.unlink n).prev x = s.prev x ∧ (s.unlink n).link (.next x) = s.link (.next x) := by
    by_cases somewhere : ∃ h, n ∈ l h
    · obtain ⟨h, member⟩ := somewhere
      exact holds.unlink_outside member outside
    · rw [Links.unlink_idle (idle fun h member => somewhere ⟨h, member⟩)]
      exact ⟨rfl, rfl⟩
  obtain ⟨prev, link⟩ := idle_x outside
  constructor
  · rw [detach_prev, if_neg other.symm, kept.1, prev]
  · rw [detach_link, if_neg (by simpa using other), kept.2, link]

theorem pushFront_link (s : Links H N) (h : H) (n : N) (q : Link H N) :
    (s.pushFront h n).link q =
      if q = .head h then some n else if q = .next n then s.link (.head h) else s.link q := by
  simp only [pushFront, setPrev_link, setLink, Function.update_apply]

theorem pushFront_prev (s : Links H N) (h : H) (n x : N) :
    (s.pushFront h n).prev x =
      if n = x then some (.head h)
      else if s.link (.head h) = some x then some (.next n) else s.prev x := by
  unfold pushFront
  dsimp only
  rw [setPrev_prev]
  simp only [setLink, setPrev_prev, Option.some.injEq]

/-- A node that is on no list is put in front of one. -/
theorem Holds.pushFront (holds : s.Holds valid l) (valid_h : valid h) (free : ∀ h, n ∉ l h) :
    (s.pushFront h n).Holds valid (Function.update l h (n :: l h)) := by
  have elsewhere {h' : H} {x : N} (member : x ∈ l h') : n ≠ x := by
    rintro rfl
    exact free h' member
  have old {h' : H} {x : N} (member : x ∈ Function.update l h (n :: l h) h') :
      (x = n ∧ h' = h) ∨ x ∈ l h' := by
    rcases Decidable.eq_or_ne h' h with rfl | other
    · rw [Function.update_self] at member
      exact (List.mem_cons.mp member).imp_left fun same => ⟨same, rfl⟩
    · rw [Function.update_of_ne other] at member
      exact .inr member
  refine ⟨fun h' valid' => ?_, fun h' => ?_, fun {h₁ h₂ x} member member' => ?_,
    fun member => ?_⟩
  · rcases Decidable.eq_or_ne h' h with rfl | other
    · rw [Function.update_self]
      refine ⟨⟨?_, ?_⟩, ?_⟩
      · rw [pushFront_link, if_pos rfl]
      · rw [pushFront_prev, if_pos rfl]
      have chain := holds.chain h' valid'
      have inside {x : N} (member : x ∈ l h') := elsewhere member
      have nodup := holds.nodup h'
      have next : (s.pushFront h' n).link (.next n) = s.link (.head h') := by
        rw [pushFront_link, if_neg (fun same => by cases same), if_pos rfl]
      generalize l h' = xs at chain inside nodup ⊢
      cases xs with
      | nil => exact next.trans chain
      | cons y ys =>
        obtain ⟨⟨link, prev⟩, rest⟩ := chain
        refine ⟨⟨next.trans link, ?_⟩, rest.congr ?_ ?_⟩
        · rw [pushFront_prev, if_neg (inside (.head _)), if_pos link]
        · intro q on
          have behind : ∃ z ∈ y :: ys, q = .next z := by
            rcases on with rfl | ⟨z, member, rfl⟩
            · exact ⟨y, .head _, rfl⟩
            · exact ⟨z, .tail _ member, rfl⟩
          obtain ⟨z, member, rfl⟩ := behind
          rw [pushFront_link, if_neg (fun same => by cases same), if_neg]
          intro same
          cases same
          exact inside member rfl
        · intro z member
          rw [pushFront_prev, if_neg (inside (.tail _ member)), if_neg]
          intro same
          cases link.symm.trans same
          exact (List.nodup_cons.mp nodup).1 member
    · rw [Function.update_of_ne other]
      refine (holds.chain h' valid').congr (fun q on => ?_) (fun x member => ?_)
      · rw [pushFront_link, if_neg, if_neg]
        · rintro rfl
          rcases on with same | ⟨x, member, same⟩
          · cases same
          · cases same
            exact free h' member
        · rintro rfl
          rcases on with same | ⟨x, -, same⟩
          · cases same
            exact other rfl
          · cases same
      · rw [pushFront_prev, if_neg (elsewhere member), if_neg]
        intro first
        rw [(holds.chain h valid_h).link_eq] at first
        exact other (holds.unique member (List.mem_of_head? first))
  · rcases Decidable.eq_or_ne h' h with rfl | other
    · rw [Function.update_self]
      exact List.nodup_cons.mpr ⟨free h', holds.nodup h'⟩
    · rw [Function.update_of_ne other]
      exact holds.nodup h'
  · rcases old member with ⟨rfl, rfl⟩ | was
    · rcases old member' with ⟨-, rfl⟩ | was'
      · rfl
      · exact absurd was' (free _)
    · rcases old member' with ⟨rfl, -⟩ | was'
      · exact absurd was (free _)
      · exact holds.unique was was'
  · rcases old member with ⟨-, rfl⟩ | was
    · exact valid_h
    · exact holds.valid was

/-- Other nodes on no list are not touched. -/
theorem Holds.pushFront_outside (holds : s.Holds valid l) (valid_h : valid h) {x : N}
    (other : x ≠ n) (outside : ∀ h, x ∉ l h) :
    (s.pushFront h n).prev x = s.prev x ∧
      (s.pushFront h n).link (.next x) = s.link (.next x) := by
  constructor
  · rw [pushFront_prev, if_neg other.symm, if_neg]
    intro first
    rw [(holds.chain h valid_h).link_eq] at first
    exact outside h (List.mem_of_head? first)
  · rw [pushFront_link, if_neg nofun, if_neg (by simpa using other)]

theorem splice_link (s : Links H N) {h h' : H} (apart : h ≠ h') (last : N) (q : Link H N) :
    (s.splice h h' last).link q =
      if q = .head h then none
      else if q = .head h' then s.link (.head h)
      else if q = .next last then s.link (.head h') else s.link q := by
  have other : Link.head h ≠ (.head h' : Link H N) := fun same => apart (by cases same; rfl)
  unfold splice
  simp only [setPrev_link, setLink, Function.update_apply, other, reduceCtorEq, if_false]

theorem splice_prev (s : Links H N) {h h' : H} (apart : h ≠ h') (last x : N) :
    (s.splice h h' last).prev x =
      if s.link (.head h) = some x then some (.head h')
      else if s.link (.head h') = some x then some (.next last) else s.prev x := by
  have other : Link.head h ≠ (.head h' : Link H N) := fun same => apart (by cases same; rfl)
  unfold splice
  simp only [setLink, setPrev_prev, setPrev_link, Function.update_apply, other, reduceCtorEq,
    if_false]

omit [DecidableEq H] [DecidableEq N] in
/-- A chain goes on where its last node's link leads. -/
theorem Chain.extend (chain : s.Chain r (xs ++ [n])) (rest : s'.Chain (.next n) ys)
    (links : ∀ q, OnChain r xs q → s'.link q = s.link q)
    (prevs : ∀ x ∈ xs ++ [n], s'.prev x = s.prev x) : s'.Chain r (xs ++ n :: ys) := by
  induction xs generalizing r with
  | nil =>
    obtain ⟨⟨link, prev⟩, -⟩ := chain
    exact ⟨⟨(links r (.inl rfl)).trans link, (prevs n (.head _)).trans prev⟩, rest⟩
  | cons x xs ih =>
    obtain ⟨⟨link, prev⟩, behind⟩ := chain
    refine ⟨⟨(links r (.inl rfl)).trans link, (prevs x (.head _)).trans prev⟩, ih behind ?_ ?_⟩
    · rintro q (rfl | ⟨y, member, rfl⟩)
      · exact links _ (.inr ⟨x, .head _, rfl⟩)
      · exact links _ (.inr ⟨y, .tail _ member, rfl⟩)
    · exact fun y member => prevs y (.tail _ member)

/-- The chain of both lists, from the head of the second. -/
theorem Holds.splice_chain (holds : s.Holds valid l) {h' : H} (apart : h ≠ h') (valid_h : valid h)
    (valid_h' : valid h') {front : List N} {last : N} (eq : l h = front ++ [last]) :
    (s.splice h h' last).Chain (.head h') (l h ++ l h') := by
  have last_on : last ∈ l h := eq ▸ List.mem_append_right _ (.head _)
  have nodup := holds.nodup h
  have chain := holds.chain h valid_h
  have chain' := holds.chain h' valid_h'
  have first_of {x : N} (first : s.link (.head h) = some x) : x ∈ l h :=
    List.mem_of_head? (chain.link_eq.symm.trans first)
  have first_of' {x : N} (first : s.link (.head h') = some x) : x ∈ l h' :=
    List.mem_of_head? (chain'.link_eq.symm.trans first)
  have behind : (s.splice h h' last).Chain (.next last) (l h') := by
    have start : (s.splice h h' last).link (.next last) = s.link (.head h') := by
      rw [splice_link s apart, if_neg nofun, if_neg nofun, if_pos rfl]
    have inside {x : N} (member : x ∈ l h') : x ∉ l h := fun member' =>
      apart (holds.unique member' member)
    have nodup' := holds.nodup h'
    generalize l h' = ys at chain' inside nodup' ⊢
    cases ys with
    | nil => exact start.trans chain'
    | cons y ys =>
      obtain ⟨⟨link, prev⟩, rest⟩ := chain'
      refine ⟨⟨start.trans link, ?_⟩, rest.congr ?_ ?_⟩
      · rw [splice_prev s apart, if_neg fun first => inside (.head _) (first_of first), if_pos link]
      · intro q on
        have next : ∃ z ∈ y :: ys, q = .next z := by
          rcases on with rfl | ⟨z, member, rfl⟩
          · exact ⟨y, .head _, rfl⟩
          · exact ⟨z, .tail _ member, rfl⟩
        obtain ⟨z, member, rfl⟩ := next
        rw [splice_link s apart, if_neg nofun, if_neg nofun, if_neg]
        intro same
        cases same
        exact inside member last_on
      · intro z member
        rw [splice_prev s apart, if_neg fun first => inside (.tail _ member) (first_of first), if_neg]
        intro same
        cases link.symm.trans same
        exact (List.nodup_cons.mp nodup').1 member
  have start : (s.splice h h' last).link (.head h') = s.link (.head h) := by
    rw [splice_link s apart, if_neg (fun same => apart (by cases same; rfl)), if_pos rfl]
  have outside {x : N} (member : x ∈ l h) : s.link (.head h') ≠ some x := fun first =>
    apart (holds.unique member (first_of' first))
  rw [eq] at chain nodup outside
  rw [eq, List.append_assoc, List.singleton_append]
  cases front with
  | nil =>
    obtain ⟨⟨link, prev⟩, -⟩ := chain
    refine ⟨⟨start.trans link, ?_⟩, behind⟩
    rw [splice_prev s apart, if_pos link]
  | cons x front =>
    obtain ⟨⟨link, prev⟩, rest⟩ := chain
    obtain ⟨absent, nodup⟩ := List.nodup_cons.mp nodup
    refine ⟨⟨start.trans link, ?_⟩, rest.extend behind ?_ ?_⟩
    · rw [splice_prev s apart, if_pos link]
    · intro q on
      have next : ∃ z ∈ x :: front, q = .next z := by
        rcases on with rfl | ⟨z, member, rfl⟩
        · exact ⟨x, .head _, rfl⟩
        · exact ⟨z, .tail _ member, rfl⟩
      obtain ⟨z, member, rfl⟩ := next
      rw [splice_link s apart, if_neg nofun, if_neg nofun, if_neg]
      intro same
      cases same
      rcases List.mem_cons.mp member with rfl | member
      · exact absent (List.mem_append_right _ (.head _))
      · exact List.disjoint_of_nodup_append nodup member (.head _)
    · intro z member
      rw [splice_prev s apart, if_neg, if_neg (outside (.tail _ member))]
      intro same
      cases link.symm.trans same
      exact absent member

/-- One list goes in front of another and is empty then. -/
theorem Holds.splice (holds : s.Holds valid l) {h' : H} (apart : h ≠ h') (valid_h : valid h)
    (valid_h' : valid h') {front : List N} {last : N} (eq : l h = front ++ [last]) :
    (s.splice h h' last).Holds valid
      (Function.update (Function.update l h' (l h ++ l h')) h []) := by
  have last_on : last ∈ l h := eq ▸ List.mem_append_right _ (.head _)
  have old {k : H} {x : N}
      (member : x ∈ Function.update (Function.update l h' (l h ++ l h')) h [] k) :
      (k = h' ∧ x ∈ l h) ∨ (k ≠ h ∧ x ∈ l k) := by
    rcases Decidable.eq_or_ne k h with rfl | other
    · rw [Function.update_self] at member
      cases member
    rw [Function.update_of_ne other] at member
    rcases Decidable.eq_or_ne k h' with rfl | other'
    · rw [Function.update_self] at member
      exact (List.mem_append.mp member).imp (⟨rfl, ·⟩) (⟨other, ·⟩)
    · rw [Function.update_of_ne other'] at member
      exact .inr ⟨other, member⟩
  refine ⟨fun k valid_k => ?_, fun k => ?_, fun {h₁ h₂ x} member member' => ?_, fun member => ?_⟩
  · rcases Decidable.eq_or_ne k h with rfl | other
    · rw [Function.update_self]
      exact (splice_link s apart last _).trans (if_pos rfl)
    rw [Function.update_of_ne other]
    rcases Decidable.eq_or_ne k h' with rfl | other'
    · rw [Function.update_self]
      exact holds.splice_chain apart valid_h valid_h' eq
    · rw [Function.update_of_ne other']
      refine (holds.chain k valid_k).congr (fun q on => ?_) (fun x member => ?_)
      · rw [splice_link s apart, if_neg, if_neg, if_neg]
        · rintro rfl
          rcases on with same | ⟨x, member, same⟩
          · cases same
          · cases same
            exact other (holds.unique member last_on)
        · rintro rfl
          rcases on with same | ⟨x, -, same⟩ <;> cases same
          exact other' rfl
        · rintro rfl
          rcases on with same | ⟨x, -, same⟩ <;> cases same
          exact other rfl
      · rw [splice_prev s apart, if_neg, if_neg]
        · intro first
          rw [(holds.chain h' valid_h').link_eq] at first
          exact other' (holds.unique member (List.mem_of_head? first))
        · intro first
          rw [(holds.chain h valid_h).link_eq] at first
          exact other (holds.unique member (List.mem_of_head? first))
  · rcases Decidable.eq_or_ne k h with rfl | other
    · rw [Function.update_self]
      exact List.nodup_nil
    rw [Function.update_of_ne other]
    rcases Decidable.eq_or_ne k h' with rfl | other'
    · rw [Function.update_self]
      refine List.nodup_append'.mpr ⟨holds.nodup h, holds.nodup k, fun x member member' => ?_⟩
      exact apart (holds.unique member member')
    · rw [Function.update_of_ne other']
      exact holds.nodup k
  · rcases old member with ⟨rfl, was⟩ | ⟨other, was⟩
    · rcases old member' with ⟨rfl, -⟩ | ⟨other', was'⟩
      · rfl
      · exact absurd (holds.unique was' was) other'
    · rcases old member' with ⟨rfl, was'⟩ | ⟨-, was'⟩
      · exact absurd (holds.unique was was') other
      · exact holds.unique was was'
  · rcases old member with ⟨rfl, -⟩ | ⟨-, was⟩
    · exact valid_h'
    · exact holds.valid was

end Links

end BackLinks
