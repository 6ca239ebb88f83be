import DogVillage.Feeds

/-!
# Where the posts of a feed come from

Whatever fails and whatever overlaps: as long as an account stays signed in
until its uploads and follows are done, no post of an account that he never
followed gets into a user's feed (`users/u/user-feed`; the feed screen itself
lists all posts). An upload reads its author's followers before it writes to
their feeds; that is where this could go wrong.
-/

namespace DogVillage

open Async

section

variable {D : Type}

/-- `v` has tapped to follow `b`. -/
def Followed (log : Log D) (b v : Uid) : Prop :=
  ∃ x ∈ log, x.tag = edgeBy false v b ∧ x.obs = .acted

theorem Followed.mono {log log' : Log D} (h : log <:+ log') {b v : Uid} (hf : Followed log b v) :
    Followed log' b v := by
  obtain ⟨x, hx, hf⟩ := hf
  exact ⟨x, h.subset hx, hf⟩

/-- The fan-outs, where a follower is who has ever followed. -/
def origins : Spec village D (View D) := fanoutsBy fun _ => Followed

/-- An account stays signed in until its uploads and follows are done. -/
def StaysSignedIn (w : World village D) (_ : Event village D) : Prop :=
  ∀ d t, w.Active d t → t.SignedIn (w.devices d).loc

/-- What holds of every write to a feed or about a follow. -/
structure Origins (w : World village D) : Prop where
  code : origins.Inv w
  wrote : ∀ x ∈ w.log, ∀ wr res, x.obs = .wrote wr res → FeedWrite (origins.of w) x.tag wr ∧
    ∃ y ∈ w.log, y.tag = x.tag ∧ y.obs = .acted

theorem origins_rely {w w' : World village D} (h : w.log <:+ w'.log) (t : Call) :
    FeedRely t (origins.of w) (origins.of w') :=
  ⟨h, fun _ _ _ hf => hf.mono h⟩

end

section

variable {D : Type} [DecidableEq D] {w w' : World village D} {e : Event village D}
  {ok : World village D → Event village D → Prop} {u v b : Uid} {p : DocId}

/-- Whoever is among the followers of `b` has followed `b`. -/
theorem followed_of_present (hrun : Run ok emptyWorld w) (h : Origins w)
    (hp : w.server.present ⟨.userFollowers b, v⟩ = true) : Followed w.log b v := by
  obtain ⟨data, hget⟩ := Option.isSome_iff_exists.mp hp
  obtain ⟨x, hx, data, ho⟩ := existed_of_present hrun hget
  obtain ⟨hw, y, hy, htag, hacted⟩ := h.wrote x hx _ _ ho
  obtain ⟨gone, hwr, ht⟩ := hw.edge (r := ⟨.userFollowers b, v⟩) rfl (Or.inr rfl)
  cases gone with
  | true => cases hwr
  | false => exact ⟨y, hy, htag.trans ht, hacted⟩

theorem Origins.answer_step (hrun : Run ok emptyWorld w) (h : Origins w) (hs : Stepped w e w')
    {d : D} {t : Call} {q : Ask} {a : q.Ans} {srv : Server} (hans : e.Answers w d t q a srv) :
    FeedAnswer (origins.of w') t q a := by
  cases q with
  | getDocuments q =>
      intro documents ha x hx
      refine ⟨fun b _ hq => ?_, fun b hq => ?_⟩
      · subst hq
        obtain ⟨c, hv⟩ := hans.serve
        have hmem : x ∈ w.server.docs.select (followersQuery b) := by
          cases c <;> cases hv <;> cases ha
          exact hx
        obtain ⟨hget, -⟩ := Documents.mem_select.mp hmem
        exact (followed_of_present hrun h (Option.isSome_iff_exists.mpr ⟨_, hget⟩)).mono hs.log
      · exact ((sound_of_run hrun).authorityAnswer hs hans documents ha b hq x hx).1
  | _ => trivial

theorem Origins.step (hrun : Run ok emptyWorld w) (h : Origins w) (hok : StaysSignedIn w e)
    (hs : Stepped w e w') : Origins w' where
  code := h.code.step hs (fun _ t _ => origins_rely hs.log t) (fun _ _ _ => trivial)
    (fun _ a _ => fanout_action a _) (fun d t ht => hok d t ht.active)
    (fun _ _ v hv _ hu => ⟨_, (hv.step hs).1 ▸ List.mem_cons_self, v, rfl, rfl, hu⟩)
    (fun _ _ _ _ => trivial) fun _ _ _ _ _ hans => h.answer_step hrun hs hans
  wrote x hx wr res ho := by
    rcases wrote_of_step hs hx ho with hx | ⟨_, m, ms, -, hw, ht, hwr, -⟩
    · obtain ⟨hfeed, y, hy, hacted⟩ := h.wrote x hx wr res ho
      exact ⟨hfeed.mono (origins_rely hs.log _), y, hs.log.subset hy, hacted⟩
    · have hm : m ∈ (w.devices x.device).writes := by rw [hw]; exact List.mem_cons_self
      have hfeed : FeedWrite (origins.of w) m.tag m.write := ((h.code.held x.device).writes m hm).1
      obtain ⟨y, hy, hacted⟩ := acted_of_active (fun _ _ => not_active_emptyWorld) hrun
        (active_of_sent hm)
      rw [← ht, ← hwr]
      exact ⟨hfeed.mono (origins_rely hs.log _), y, hs.log.subset hy, hacted⟩

theorem origins_of_run (hrun : Run StaysSignedIn emptyWorld w) : Origins w := by
  induction hrun with
  | refl =>
      exact ⟨⟨fun _ => trivial, fun _ => by constructor <;> simp [emptyWorld, Device.jobs]⟩,
        fun x hx => by cases hx⟩
  | step hrun hok hstep ih => exact ih.step hrun hok (stepped_of_step hstep)

/-- Whatever fails and whatever overlaps, a post in the feed of `u` that is
still there is one of `u`, or of an account `u` has followed. -/
theorem feed_from_followed (hrun : Run StaysSignedIn emptyWorld w)
    (hfeed : w.server.present ⟨.userFeed u, p⟩ = true) (howns : w.server.owns b p) :
    b = u ∨ Followed w.log b u := by
  obtain ⟨data, hget⟩ := Option.isSome_iff_exists.mp hfeed
  obtain ⟨x, hx, data, ho⟩ := existed_of_present hrun hget
  obtain ⟨hw, y, hy, htag, hacted⟩ := (origins_of_run hrun).wrote x hx _ _ ho
  obtain ⟨b', gone, hwr, hown, hby⟩ := hw.feed (v := u) (p := p) rfl
  have hsound := sound_of_run hrun
  obtain rfl : b' = b := hsound.owner_unique hown (hsound.owner_of_owns howns)
  rcases hby with ht | ⟨-, -, rfl | hf⟩
  · cases gone with
    | true => cases hwr
    | false => exact Or.inr ⟨y, hy, htag.trans ht, hacted⟩
  · exact Or.inl rfl
  · exact Or.inr hf

end

/-! ## With and without staying signed in -/

theorem staysSignedIn_of_oneAtATime {w : World village Unit} {e : Event village Unit}
    (h : oneAtATime w e = true) : StaysSignedIn w e := (apart_of_oneAtATime h).signedIn

theorem feed_from_followed_aliceFollowed :
    "n1" = "n6" ∨ Followed aliceFollowed.log "n1" "n6" := by
  have hrun : Run StaysSignedIn emptyWorld aliceFollowed := by
    unfold aliceFollowed
    iterate 9
      refine Policy.run_checks (fun _ _ => staysSignedIn_of_oneAtATime) (by decide) ?_
    exact .refl
  exact feed_from_followed (p := "n3") hrun (by decide) ⟨_, rfl, by decide⟩

/-- Alice has posted, and Carol has an account. On the same device Bob has
tapped to follow Alice and logged out before anything was written, and Carol
is about to log in. -/
def bobLeaves : World village Unit :=
  emptyWorld
    |> smooth.perform () (.signUp "alice@dog.kr" "secret" "Alice" "alice" ⟨some []⟩) 100
    |> smooth.perform () (.didFinishPicking ⟨some []⟩) 100
    |> smooth.perform () (.tapDone 0 "walk") 100
    |> smooth.perform () .logout 100
    |> smooth.perform () (.signUp "carol@dog.kr" "secret" "Carol" "carol" ⟨some []⟩) 100
    |> smooth.perform () .logout 100
    |> smooth.perform () (.signUp "bob@dog.kr" "secret" "Bob" "bob" ⟨some []⟩) 100
    |> smooth.perform () (.searchDidLoad 2) 100
    |> smooth.perform () (.searchSelectUser 2 0) 100
    |> smooth.perform () (.profileHeader 3) 100
    |> smooth.perform () (.tapActionButton 3) 2
    |> smooth.perform () .logout 2
    |> smooth.perform () (.login "carol@dog.kr" "secret") 3

/-- Carol's login is answered while Bob's follow waits in the pool. -/
def carolEnters : World village Unit := (step bobLeaves (.answer () 0 .ok)).getD bobLeaves

def carolStays : World village Unit := smooth.drain () 100 carolEnters

/-- The follow goes on as Carol's: Alice's post is in the feed of Carol, who
has never followed anybody. -/
theorem feed_of_stranger : Run NoFailure emptyWorld carolStays ∧ carolStays.Idle ∧
    (carolEnters.devices ()).writes = [] ∧
    carolStays.server.owns "n1" "n3" ∧
    carolStays.server.present ⟨.userFeed "n6", "n3"⟩ = true ∧
    ¬Followed carolStays.log "n1" "n6" := by
  refine ⟨?_, fun _ => (by decide : (carolStays.devices ()).idle = true), rfl,
    ⟨_, rfl, by decide⟩, by decide, ?_⟩
  · have hleaves : Run NoFailure emptyWorld bobLeaves := by
      unfold bobLeaves
      iterate 13
        refine Policy.run_perform (fun _ _ h => noFailure_of_pick h) trivial ?_
      exact .refl
    have henters : step bobLeaves (.answer () 0 .ok) = some carolEnters :=
      step_getD (by decide)
    have hok : NoFailure bobLeaves (.answer () 0 .ok) := fun err h => by cases h
    exact Policy.run_drain (fun _ _ h => noFailure_of_pick h) (.step hleaves hok henters)
  · rintro ⟨x, hx, ht, -⟩
    have hno : (carolStays.log.all fun x => Call.actor x.tag ≠ some "n6" ||
        Call.op x.tag ≠ .follow "n1") = true := by decide
    have hx := List.all_eq_true.mp hno x hx
    rw [ht] at hx
    cases hx

end DogVillage
