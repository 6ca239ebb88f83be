import DogVillage.Mirror

/-!
# The two sides of a follow

That `a` follows `b` is kept as `following/a/user-following/b` and as
`followers/b/user-followers/a`. The two are a `Mirror`: as long as each
account acts on one device and no write fails, they agree on every pair
for which nothing under way may still write one of them, however many
taps on follow and unfollow are half-done.
-/

namespace DogVillage

open Async

/-- The pairs (follower, followed), and where the app keeps them. -/
def edges : Mirror (Uid × Uid) where
  original k := ⟨.userFollowing k.1, k.2⟩
  copy k := ⟨.userFollowers k.2, k.1⟩
  originalKey
    | ⟨.userFollowing a, b⟩ => some (a, b)
    | _ => none
  copyKey
    | ⟨.userFollowers b, a⟩ => some (a, b)
    | _ => none
  originalKey_eq {r k} := by
    obtain ⟨c, i⟩ := r
    obtain ⟨a, b⟩ := k
    cases c <;> simp [Ref.mk.injEq]
  copyKey_eq {r k} := by
    obtain ⟨c, i⟩ := r
    obtain ⟨a, b⟩ := k
    cases c <;> simp [Ref.mk.injEq, and_comm]
  key
    | ⟨some a, .follow b⟩ => some (a, b)
    | ⟨some a, .unfollow b⟩ => some (a, b)
    | _ => none

/-! ## The taps -/

/-- No document of a pair is in the collection. -/
def OffEdges (c : Collection) : Prop :=
  (∀ a, c ≠ .userFollowing a) ∧ ∀ b, c ≠ .userFollowers b

theorem edges_off (r : Ref Collection) (h : OffEdges r.collection) :
    edges.originalKey r = none ∧ edges.copyKey r = none := by
  constructor
  · refine Option.eq_none_iff_forall_ne_some.mpr fun k hk => h.1 k.1 ?_
    rw [edges.originalKey_eq.mp hk]
    rfl
  · refine Option.eq_none_iff_forall_ne_some.mpr fun k hk => h.2 k.2 ?_
    rw [edges.copyKey_eq.mp hk]
    rfl

variable {uid b : Uid} {completion : Completion}

theorem edges_followWrites (h : ∀ error, Touches OffEdges (completion error)) :
    edges.echo.Follows ⟨some uid, .follow b⟩ none (followWrites uid b completion) := by
  have hc := fun error => Mirror.follows_of_touches (t := ⟨some uid, .follow b⟩) (h error) edges_off
  refine ⟨⟨rfl, ?_, fun _ => ⟨rfl, rfl, rfl, hc, trivial⟩, trivial⟩, trivial⟩
  rintro kv ⟨⟩
  rfl

theorem edges_unfollowWrites (h : ∀ error, Touches OffEdges (completion error)) :
    edges.echo.Follows ⟨some uid, .unfollow b⟩ none (unfollowWrites uid b completion) := by
  have hc := fun error => Mirror.follows_of_touches (t := ⟨some uid, .unfollow b⟩) (h error) edges_off
  refine ⟨⟨rfl, ?_, fun _ => ⟨rfl, rfl, rfl, hc, trivial⟩, trivial⟩, trivial⟩
  rintro kv ⟨⟩
  rfl

theorem edges_action (a : Action) (app : App) :
    edges.echo.Follows ⟨app.currentUser, a.op app⟩ none (a.block.start app) := by
  have hfeed : ∀ u, OffEdges (.userFeed u) := fun u => ⟨by simp, by simp⟩
  have hnotif : ∀ u, OffEdges (.userNotifications u) := fun u => ⟨by simp, by simp⟩
  cases a with
  | tapActionButton i =>
      have htap := profileTap i app
      generalize (Action.tapActionButton i).op app = op at htap ⊢
      generalize (Action.tapActionButton i).block.start app = c at htap ⊢
      cases htap with
      | none => trivial
      | follow _ _ _ huid =>
          rw [huid]
          exact edges_followWrites (touches_onFollow hfeed hnotif)
      | unfollow _ _ _ huid =>
          rw [huid]
          exact edges_unfollowWrites (touches_onUnfollow hfeed)
  | tapFollow i c =>
      have htap := notificationTap i c app
      generalize (Action.tapFollow i c).op app = op at htap ⊢
      generalize (Action.tapFollow i c).block.start app = c at htap ⊢
      cases htap with
      | none => trivial
      | dropped => trivial
      | follow _ huid =>
          rw [huid]
          exact edges_followWrites touches_onTap
      | unfollow _ huid =>
          rw [huid]
          exact edges_unfollowWrites touches_onTap
  | _ =>
      refine Mirror.follows_of_touches (touches_action _ app) fun r hr => edges_off r ?_
      constructor <;> rintro u hu <;> rw [hu] at hr <;> exact hr

/-! ## Runs -/

variable {D : Type} [DecidableEq D] {w w' : World village D} {e : Event village D}

/-- Each account is signed in on its own device only, and no write fails. -/
def OneDevice (home : Uid → D) (w : World village D) (e : Event village D) : Prop :=
  (∀ d u, (w.devices d).loc.currentUser = some u → home u = d) ∧
    ∀ d error, e ≠ .commit d (some error)

/-- Something may still write one of the two documents of the pair. -/
def EdgeOutstanding (w : World village D) (a b : Uid) : Prop :=
  ∃ d, ¬ (w.devices d).Writes fun wr : Write =>
    wr.ref ≠ ⟨.userFollowing a, b⟩ ∧ wr.ref ≠ ⟨.userFollowers b, a⟩

/-- A call is on its account's device. -/
def AtHome (home : Uid → D) (w : World village D) : Prop :=
  ∀ d t u, w.Active d t → t.actor = some u → home u = d

theorem AtHome.step {home : Uid → D} (h : AtHome home w) (hok : OneDevice home w e)
    (hs : Stepped w e w') : AtHome home w' := by
  intro d t u ht hu
  rcases active_of_step hs ht with ht | ⟨a, -, rfl⟩
  · exact h d t u ht hu
  · exact hok.1 d u hu

omit [DecidableEq D] in
theorem AtHome.exclusive {home : Uid → D} (h : AtHome home w) : edges.echo.Exclusive w := by
  have actor : ∀ {t : Call} {k : Uid × Uid}, edges.key t = some k → t.actor = some k.1 := by
    rintro ⟨_ | a, op⟩ k hk
    · simp [edges] at hk
    · cases op <;> simp [edges] at hk <;> rw [← hk]
  intro d d' t t' k ht ht' hk hk'
  rw [← h d t k.1 ht (actor hk), ← h d' t' k.1 ht' (actor hk')]

theorem edges_echoing {home : Uid → D} (hrun : Run (OneDevice home) emptyWorld w) :
    AtHome home w ∧ edges.echo.Echoing w := by
  refine hrun.inv (fun w => AtHome home w ∧ edges.echo.Echoing w) ⟨?_, Mirror.echoing_empty⟩ ?_
  · exact fun d t u ht => absurd ht not_active_emptyWorld
  · rintro w e w' ⟨hhome, hecho⟩ hok hs
    refine ⟨hhome.step hok hs, Mirror.step hecho hhome.exclusive hs edges_action ?_⟩
    rintro d (_ | error) n ns rfl hn -
    · rfl
    · exact absurd rfl (hok.2 d error)

/-- Where nothing of a pair is outstanding its two documents agree. -/
theorem edges_agree {home : Uid → D} (hrun : Run (OneDevice home) emptyWorld w) {a b : Uid}
    (hab : ¬ EdgeOutstanding w a b) :
    w.server.present ⟨.userFollowing a, b⟩ ↔ w.server.present ⟨.userFollowers b, a⟩ := by
  have hecho := (edges_echoing hrun).2
  have hnil : ∀ d, edges.echo.dueFor (a, b) (w.devices d) = [] := by
    intro d
    have hd : (w.devices d).Writes fun wr : Write =>
        wr.ref ≠ ⟨.userFollowing a, b⟩ ∧ wr.ref ≠ ⟨.userFollowers b, a⟩ := by
      by_contra hd
      exact hab ⟨d, hd⟩
    exact Mirror.dueFor_eq_nil (hd.mono fun wr h => h.2)
  have heq := hecho.settled hnil
  simp only [edges, Mirror.echo] at heq
  rw [heq]

/-- Alice has signed up, then Bob on the same device; he has found her
profile and follows her. -/
def followed : World village Unit :=
  emptyWorld
    |> smooth.perform () (.signUp "alice@dog.kr" "secret" "Alice" "alice" ⟨some []⟩) 100
    |> smooth.perform () .logout 100
    |> smooth.perform () (.signUp "bob@dog.kr" "secret" "Bob" "bob" ⟨some []⟩) 100
    |> smooth.perform () (.searchDidLoad 1) 100
    |> smooth.perform () (.searchSelectUser 1 0) 100
    |> smooth.perform () (.profileHeader 2) 100
    |> smooth.perform () (.tapActionButton 2) 100

theorem followed_reached : Run (OneDevice fun _ => ()) emptyWorld followed := by
  have hpick : ∀ w e, smooth.pick () w = some e → OneDevice (fun _ => ()) w e := by
    refine fun w e h => ⟨fun _ _ _ => rfl, ?_⟩
    rintro d error rfl
    cases smooth_commit h
  have hact : ∀ w a, OneDevice (fun _ => ()) w (.act () a) := fun w a =>
    ⟨fun _ _ _ => rfl, fun _ _ h => by cases h⟩
  unfold followed
  iterate 7 refine Policy.run_perform hpick (hact _ _) ?_
  exact .refl

theorem edges_agree_followed :
    followed.server.present ⟨.userFollowing "n3", "n1"⟩ ↔
      followed.server.present ⟨.userFollowers "n1", "n3"⟩ :=
  edges_agree followed_reached fun ⟨(), h⟩ => h (Device.Writes.of_idle (by decide) (by decide))

example : followed.server.present ⟨.userFollowers "n1", "n3"⟩ = true := by decide

end DogVillage
