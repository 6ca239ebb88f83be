import DogVillage.Network

/-!
# In whichever order

Two runs whose users do the same to each post, to each pair of accounts and
to each like of an account, and each of these in the same order, come to
the same store: it does not matter how the deeds about different things are
mixed, on which devices they are done, nor how their calls interleave.
-/

namespace DogVillage

open Async

/-! ## Replays -/

/-- What is read of one subject depends only on what is done to it. -/
theorem foldr_about {S A K α : Type} [DecidableEq K] {f : A → S → S} {about : A → K} {k : K}
    {read : S → α} (hother : ∀ a s, about a ≠ k → read (f a s) = read s)
    (hsame : ∀ a s s', about a = k → read s = read s' → read (f a s) = read (f a s')) (s : S)
    (l : List A) : read (l.foldr f s) = read ((l.filter (about · = k)).foldr f s) := by
  induction l with
  | nil => rfl
  | cons a l ih =>
      by_cases h : about a = k
      · rw [List.filter_cons_of_pos (by simpa using h)]
        exact hsame a _ _ h ih
      · rw [List.filter_cons_of_neg (by simpa using h)]
        exact (hother a _ h).trans ih

/-! ## What a deed is about -/

inductive Subject
  | post (p : DocId)
  | pair (v b : Uid)
  | likes (u : Uid) (p : DocId)
deriving DecidableEq, Repr

def Deed.about : Deed → Subject
  | post _ p | remove p => .post p
  | follow v b | unfollow v b => .pair v b
  | like u p | unlike u p => .likes u p

/-- The deeds in the log that are about the subject, the newest first. -/
def deedsAbout {D : Type} (k : Subject) (log : Log D) : List Deed :=
  (log.filterMap deed).filter (Deed.about · = k)

section

variable {D D' : Type} {n n' : Network} {a : Deed} {v b u : Uid} {p : DocId}

theorem owner_other (h : a.about ≠ .post p) : (n.after a).owner p = n.owner p := by
  cases a with
  | post _ q | remove q =>
      have hne : p ≠ q := fun hp => h (by rw [hp]; rfl)
      exact Function.update_of_ne hne _ _
  | _ => rfl

theorem owner_same (h : a.about = .post p) :
    (n.after a).owner p = (n'.after a).owner p := by
  cases a <;> cases h <;> simp [Network.after, Network.setOwner]

theorem follows_other (h : a.about ≠ .pair v b) : (n.after a).follows v b = n.follows v b := by
  cases a with
  | follow v' b' | unfollow v' b' =>
      have hne : ¬(v = v' ∧ b = b') := fun ⟨hv, hb⟩ => h (by rw [hv, hb]; rfl)
      exact if_neg hne
  | _ => rfl

theorem follows_same (h : a.about = .pair v b) :
    (n.after a).follows v b = (n'.after a).follows v b := by
  cases a <;> cases h <;> simp [Network.after, Network.setFollows]

theorem likes_other (h : a.about ≠ .likes u p) : (n.after a).likes u p = n.likes u p := by
  cases a with
  | like u' p' | unlike u' p' =>
      have hne : ¬(u = u' ∧ p = p') := fun ⟨hu, hp⟩ => h (by rw [hu, hp]; rfl)
      exact if_neg hne
  | _ => rfl

theorem likes_same (h : a.about = .likes u p) :
    (n.after a).likes u p = (n'.after a).likes u p := by
  cases a <;> cases h <;> simp [Network.after, Network.setLikes]

theorem network_deeds (log : Log D) :
    network log = (log.filterMap deed).foldr (fun a n => n.after a) {} := by
  induction log with
  | nil => rfl
  | cons x log ih =>
      rw [network, ih]
      cases hx : deed x with
      | none => rw [List.filterMap_cons_none hx]; rfl
      | some a => rw [List.filterMap_cons_some hx]; rfl

/-- The deeds about each subject make the network. -/
theorem network_agree {log : Log D} {log' : Log D'}
    (h : ∀ k, deedsAbout k log = deedsAbout k log') : network log = network log' := by
  rw [network_deeds, network_deeds]
  have hread : ∀ {α : Type} (k : Subject) (read : Network → α),
      (∀ a n, Deed.about a ≠ k → read (n.after a) = read n) →
      (∀ a n n', Deed.about a = k → read n = read n' → read (n.after a) = read (n'.after a)) →
      read ((log.filterMap deed).foldr (fun a n => n.after a) {}) =
        read ((log'.filterMap deed).foldr (fun a n => n.after a) {}) := by
    intro α k read hother hsame
    have hk : (log.filterMap deed).filter (Deed.about · = k) =
      (log'.filterMap deed).filter (Deed.about · = k) := h k
    rw [foldr_about hother hsame, hk, ← foldr_about hother hsame]
  generalize (log.filterMap deed).foldr (fun a n => Network.after n a) {} = n at hread ⊢
  generalize (log'.filterMap deed).foldr (fun a n => Network.after n a) {} = n' at hread ⊢
  have howner : n.owner = n'.owner := funext fun p =>
    hread (.post p) (·.owner p) (fun _ _ => owner_other) fun _ _ _ h _ => owner_same h
  have hfollows : n.follows = n'.follows := funext fun v => funext fun b =>
    hread (.pair v b) (·.follows v b) (fun _ _ => follows_other) fun _ _ _ h _ => follows_same h
  have hlikes : n.likes = n'.likes := funext fun u => funext fun p =>
    hread (.likes u p) (·.likes u p) (fun _ _ => likes_other) fun _ _ _ h _ => likes_same h
  obtain ⟨owner, follows, likes⟩ := n
  cases howner
  cases hfollows
  cases hlikes
  rfl

variable [DecidableEq D] [DecidableEq D'] {w : World village D} {w' : World village D'}

/-- Runs that do the same to each subject come to rest in stores that show the
same network. -/
theorem interleavings_agree (hrun : Run InOrder emptyWorld w) (hrun' : Run InOrder emptyWorld w')
    (hidle : w.Idle) (hidle' : w'.Idle) (hsame : ∀ k, deedsAbout k w.log = deedsAbout k w'.log) :
    ∃ n, Shows w.server n ∧ Shows w'.server n := by
  refine ⟨network w.log, shown_at_rest hrun hidle, ?_⟩
  rw [network_agree hsame]
  exact shown_at_rest hrun' hidle'

end

/-! ## A follow and a like -/

/-- Alice has posted, and Bob has her profile and her post on his screens. -/
def bobLooks : World village Unit :=
  emptyWorld
    |> smooth.perform () (.signUp "alice@dog.kr" "secret" "Alice" "alice" ⟨some []⟩) 100
    |> smooth.perform () (.didFinishPicking ⟨some []⟩) 100
    |> smooth.perform () (.tapDone 0 "walk") 100
    |> smooth.perform () .logout 100
    |> smooth.perform () (.signUp "bob@dog.kr" "secret" "Bob" "bob" ⟨some []⟩) 100
    |> smooth.perform () (.searchDidLoad 1) 100
    |> smooth.perform () (.searchSelectUser 1 0) 100
    |> smooth.perform () (.profileHeader 2) 100
    |> smooth.perform () (.feedDidLoad 1) 100
    |> smooth.perform () (.feedCell 1 0 0) 100

def followedFirst : World village Unit :=
  bobLooks
    |> smooth.perform () (.tapActionButton 2) 100
    |> smooth.perform () (.tapLike 1 0) 100

def likedFirst : World village Unit :=
  bobLooks
    |> smooth.perform () (.tapLike 1 0) 100
    |> smooth.perform () (.tapActionButton 2) 100

set_option maxRecDepth 1000 in
theorem interleavings_agree_bob :
    ∃ n, Shows followedFirst.server n ∧ Shows likedFirst.server n := by
  have hlooks : Run InOrder emptyWorld bobLooks := by
    unfold bobLooks
    iterate 10 refine Policy.run_checks (fun _ _ => inOrder_of) (by decide) ?_
    exact .refl
  have hfollowed : Run InOrder emptyWorld followedFirst := by
    unfold followedFirst
    iterate 2 refine Policy.run_checks (fun _ _ => inOrder_of) (by decide) ?_
    exact hlooks
  have hliked : Run InOrder emptyWorld likedFirst := by
    unfold likedFirst
    iterate 2 refine Policy.run_checks (fun _ _ => inOrder_of) (by decide) ?_
    exact hlooks
  refine interleavings_agree hfollowed hliked
    (fun _ => (by decide : (followedFirst.devices ()).idle = true))
    (fun _ => (by decide : (likedFirst.devices ()).idle = true)) fun k => ?_
  have hdeeds : followedFirst.log.filterMap deed =
      [.like "n6" "n3", .follow "n6" "n1", .post "n1" "n3"] := by decide
  have hdeeds' : likedFirst.log.filterMap deed =
      [.follow "n6" "n1", .like "n6" "n3", .post "n1" "n3"] := by decide
  rw [deedsAbout, deedsAbout, hdeeds, hdeeds']
  by_cases hk : Deed.about (.like "n6" "n3") = k
  · subst hk
    rfl
  · simp only [List.filter_cons, decide_eq_true_eq, if_neg hk]

end DogVillage
