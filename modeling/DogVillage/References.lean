import DogVillage.SoundRun

/-!
# What stored references name

Ids of posts and accounts are copied into feeds, likes, follows, comments
and notifications, and nothing ever takes them out again: `removePost`
deletes the one document, `deletaUser` the user and the posts. So a stored
id names a document that was written once, and is still there unless one
of these two deleted it.
-/

namespace DogVillage

open Async

/-- No call fails. -/
def NoFailure {D : Type} (_ : World village D) : Event village D → Prop
  | .commit _ fail => fail = none
  | .answer _ _ c => ∀ err, c ≠ Server.Choice.fail err
  | .notify _ _ c => ∀ err, c ≠ Server.Choice.fail err
  | _ => True

section

variable {D : Type}

/-- The document was written. -/
def Existed (w : World village D) (r : Ref Collection) : Prop :=
  ∃ x ∈ w.log, ∃ data, x.obs = .wrote (.setData r data) none

/-- The post was written, and is there unless a removal or the deletion of
an account deleted it. -/
def PostKnown (w : World village D) (p : DocId) : Prop :=
  Existed w ⟨.posts, p⟩ ∧ ((w.server.docs.get ⟨.posts, p⟩).isSome ∨
    ∃ x ∈ w.log, x.obs = .wrote (.delete ⟨.posts, p⟩) none ∧
      (x.tag.op = .remove p ∨ x.tag.op = .delete))

/-- The user was written, and is there unless the account was deleted. -/
def UserKnown (w : World village D) (u : Uid) : Prop :=
  Existed w ⟨.users, u⟩ ∧ ((w.server.docs.get ⟨.users, u⟩).isSome ∨
    ∃ x ∈ w.log, x.obs = .wrote (.delete ⟨.users, u⟩) none ∧ x.tag = ⟨some u, .delete⟩)

/-- Every id stored anywhere is known. -/
structure ReferencesKnown (w : World village D) : Prop where
  feed : ∀ u p, (w.server.docs.get ⟨.userFeed u, p⟩).isSome → PostKnown w p
  userLikes : ∀ u p, (w.server.docs.get ⟨.userLikes u, p⟩).isSome → PostKnown w p
  notificationPost : ∀ u n (data : Dictionary) p,
    w.server.docs.get ⟨.userNotifications u, n⟩ = some data →
    data.lookup "postId" = some (.string p) → PostKnown w p
  following : ∀ u v, (w.server.docs.get ⟨.userFollowing u, v⟩).isSome → UserKnown w v
  followers : ∀ u v, (w.server.docs.get ⟨.userFollowers u, v⟩).isSome → UserKnown w v
  postLikes : ∀ p u, (w.server.docs.get ⟨.postLikes p, u⟩).isSome → UserKnown w u
  commentAuthor : ∀ p c (data : Dictionary) u,
    w.server.docs.get ⟨.comments p, c⟩ = some data →
    data.lookup "uid" = some (.string u) → UserKnown w u
  notificationAuthor : ∀ u n (data : Dictionary) v,
    w.server.docs.get ⟨.userNotifications u, n⟩ = some data →
    data.lookup "uid" = some (.string v) → UserKnown w v

end

variable {D : Type} [DecidableEq D] {w w' : World village D} {e : Event village D}

/-! ## Written documents -/

/-- A document that was written is there, or it was deleted. -/
theorem kept_or_deleted {ok : World village D → Event village D → Prop}
    (hrun : Run ok emptyWorld w) {r : Ref Collection} (h : Existed w r) :
    (w.server.docs.get r).isSome ∨ ∃ x ∈ w.log, x.obs = .wrote (.delete r) none := by
  induction hrun with
  | refl => obtain ⟨x, hx, -⟩ := h; cases hx
  | @step w w' e _ _ hstep ih =>
      have hs := stepped_of_step hstep
      have keep : Existed w r → (w.server.docs.get r).isSome ∨
          ∃ x ∈ w'.log, x.obs = .wrote (.delete r) none := fun h =>
        (ih h).imp_right fun ⟨y, hy, ho⟩ => ⟨y, hs.log.subset hy, ho⟩
      obtain ⟨x, hx, data, hobs⟩ := h
      cases docsStep hs with
      | same hdocs hlog =>
          rw [hdocs]
          exact keep ⟨x, hlog x hx _ hobs, data, hobs⟩
      | @wrote d m ms he hw hlog hget =>
          have hx' : m.write = .setData r data ∨ x ∈ w.log := by
            rw [hlog] at hx
            rcases List.mem_cons.mp hx with rfl | hx
            · exact Or.inl (Obs.wrote.inj hobs).1
            · exact Or.inr hx
          rw [hget]
          rcases hx' with hm | hx
          · rw [hm]
            exact Or.inl (by simp [DocWrite.ref, Documents.written])
          · have hkeep := keep ⟨x, hx, data, hobs⟩
            by_cases hr : r = m.write.ref
            · rw [if_pos hr]
              cases hwr : m.write with
              | setData r' data' => exact Or.inl rfl
              | updateData r' data' =>
                  exact hkeep.imp_left fun h => by simpa [Documents.written] using h
              | delete r' =>
                  rw [hwr] at hr hlog
                  exact Or.inr ⟨_, hlog ▸ List.mem_cons_self, by rw [hr]; rfl⟩
            · rw [if_neg hr]
              exact hkeep

/-- A document that is there was written. -/
theorem existed_of_present {ok : World village D → Event village D → Prop}
    (hrun : Run ok emptyWorld w) {r : Ref Collection} {data : Dictionary} :
    w.server.docs.get r = some data → Existed w r := by
  induction hrun generalizing data with
  | refl => intro h; cases h
  | @step w w' e _ _ hstep ih =>
      intro h
      have hs := stepped_of_step hstep
      have keep : ∀ {data}, w.server.docs.get r = some data → Existed w' r := fun h =>
        let ⟨x, hx, data, ho⟩ := ih h
        ⟨x, hs.log.subset hx, data, ho⟩
      cases docsStep hs with
      | same hdocs _ => exact keep (hdocs ▸ h)
      | @wrote d m ms he hw hlog hget =>
          rw [hget] at h
          split at h
          · next hr =>
              cases hwr : m.write with
              | setData r' data' =>
                  rw [hwr] at hr hlog
                  exact ⟨_, hlog ▸ List.mem_cons_self, data', by rw [hr]; rfl⟩
              | updateData r' data' =>
                  rw [hwr] at h
                  obtain ⟨old, ho, -⟩ := Option.map_eq_some_iff.mp h
                  exact keep ho
              | delete r' => rw [hwr] at h; cases h
          · exact keep h

/-- When no call fails a `setData` is never refused. -/
theorem setData_accepted (hrun : Run NoFailure emptyWorld w) :
    ∀ x ∈ w.log, ∀ r data res, x.obs = .wrote (.setData r data) res → res = none := by
  induction hrun with
  | refl => exact fun x hx => by cases hx
  | @step w w' e _ hok hstep ih =>
      intro x hx r data res hobs
      rcases wrote_of_step (stepped_of_step hstep) hx hobs with hx | ⟨fail, m, ms, rfl, -, -, -, rfl⟩
      · exact ih x hx r data res hobs
      · rw [show fail = none from hok]
        rfl

/-! ## Nothing outstanding -/

theorem existed_of_issued (hrun : Run NoFailure emptyWorld w) (hidle : w.Idle)
    {x : Entry village D} (hx : x ∈ w.log) {r : Ref Collection} {data : Dictionary}
    (hobs : x.obs = .issued (.setData r data)) : Existed w r := by
  obtain ⟨y, hy, res, ho⟩ := settled_of_issued rfl hrun hidle hx hobs
  rw [setData_accepted hrun y hy r data res ho] at ho
  exact ⟨y, hy, data, ho⟩

/-- A post that was sent is known. -/
theorem postKnown (hrun : Run NoFailure emptyWorld w) (hidle : w.Idle) {p : DocId}
    (h : Posted w.log p) : PostKnown w p := by
  have hw := sound_of_run hrun
  have hex : Existed w ⟨.posts, p⟩ := by
    obtain ⟨x, hx, data, ho | ho⟩ := h
    · exact existed_of_issued hrun hidle hx ho
    · exact ⟨x, hx, data, ho⟩
  refine ⟨hex, (kept_or_deleted hrun hex).imp_right fun ⟨x, hx, ho⟩ => ⟨x, hx, ho, ?_⟩⟩
  exact (hw.wrote x hx _ _ ho).1

def Registered (u : Uid) (x : Entry village D) : Prop :=
  ∃ email password, x.obs = .answered (.createUser email password) (.ok u)

omit [DecidableEq D] in
theorem counts_newUser {u : Uid} (w : World village D) (d : D) (t : Call)
    (e : Event village D) : (newUser u).Counts w d t e :=
  ⟨trivial, fun _ _ _ _ _ => trivial, fun _ _ _ _ => trivial⟩

/-- Whoever registers owes the new user's document. -/
theorem owed_newUser {ok : World village D → Event village D → Prop}
    (hrun : Run ok emptyWorld w) (hs : Stepped w e w') {x : Entry village D} {u : Uid}
    (hx : x ∈ w'.log) (hu : Registered u x) :
    x ∈ w.log ∨ (newUser u).OwedBy (w'.devices x.device) x.tag := by
  have hw := sound_of_run hrun
  obtain ⟨email, password, ho⟩ := hu
  refine (answered_of_step hs hx ho).imp_right ?_
  rintro ⟨handler, hm | hm, hj⟩
  · have hask : AskOk x.tag (.createUser email password) handler :=
      ((hw.code.held x.device).asks _ hm).1
    exact Or.inl ⟨_, hj, rfl, hask.1 u⟩
  · obtain ⟨query, hq⟩ := ((hw.code.held x.device).listeners _ hm).1
    cases hq

theorem userKnown (hrun : Run NoFailure emptyWorld w) (hidle : w.Idle) {u : Uid}
    (h : Member w.log u) : UserKnown w u := by
  have hw := sound_of_run hrun
  have hex : Existed w ⟨.users, u⟩ := by
    obtain ⟨x, hx, email, password, ho⟩ := h
    have howed := Debt.owed_or_paid (b := newUser u) (I := Registered u) counts_newUser
      (fun _ h => h) rfl (fun _ _ _ hr hs _ hx hI => owed_newUser hr hs hx hI) hrun x hx
      ⟨email, password, ho⟩
    rcases howed with howed | ⟨y, hy, _, r, ⟨data, rfl⟩, ho⟩
    · exact absurd howed (Debt.not_owedBy_of_idle (hidle _) _)
    · rw [setData_accepted hrun y hy _ data r ho] at ho
      exact ⟨y, hy, data, ho⟩
  refine ⟨hex, (kept_or_deleted hrun hex).imp_right fun ⟨x, hx, ho⟩ => ⟨x, hx, ho, ?_⟩⟩
  exact hw.wrote x hx _ _ ho

/-! ## The references -/

/-- When no call fails, every id stored is known as soon as nothing is
outstanding. -/
theorem references_known (hrun : Run NoFailure emptyWorld w) (hidle : w.Idle) :
    ReferencesKnown w := by
  have hw := sound_of_run hrun
  have doc : ∀ {r}, (w.server.docs.get r).isSome → ∃ data, DocOk w.log r data := fun h =>
    let ⟨data, hd⟩ := Option.isSome_iff_exists.mp h
    ⟨data, (hw.docs _ data hd).1⟩
  constructor
  · exact fun u p h => let ⟨_, hd⟩ := doc h; postKnown hrun hidle hd
  · exact fun u p h => let ⟨_, hd⟩ := doc h; postKnown hrun hidle hd
  · intro u n data p hget hp
    obtain ⟨⟨-, hpost⟩, -⟩ := hw.docs _ _ hget
    obtain ⟨p', hp', hposted⟩ := hpost _ hp
    cases hp'
    exact postKnown hrun hidle hposted
  · exact fun u v h => let ⟨_, hd⟩ := doc h; userKnown hrun hidle hd
  · exact fun u v h => let ⟨_, hd⟩ := doc h; userKnown hrun hidle hd
  · exact fun p u h => let ⟨_, hd⟩ := doc h; userKnown hrun hidle hd
  · intro p c data u hget hu
    obtain ⟨⟨u', hu', hm⟩, -⟩ := hw.docs _ _ hget
    rw [hu] at hu'
    cases hu'
    exact userKnown hrun hidle hm
  · intro u n data v hget hv
    obtain ⟨⟨⟨v', hv', hm⟩, -⟩, -⟩ := hw.docs _ _ hget
    rw [hv] at hv'
    cases hv'
    exact userKnown hrun hidle hm

theorem smooth_succeeds (q : Ask) (srv : Server) (err : FIRError) :
    smooth.choice q srv ≠ Server.Choice.fail err := by
  cases q <;> intro h <;> cases h

omit [DecidableEq D] in
theorem noFailure_of_pick {d : D} {w : World village D} {e : Event village D}
    (h : smooth.pick d w = some e) : NoFailure w e := by
  simp only [Policy.pick] at h
  split at h <;> cases h
  · trivial
  · trivial
  · trivial
  · rfl
  · exact smooth_succeeds _ _

theorem ownPost_noFailure : Run NoFailure emptyWorld ownPost := by
  unfold ownPost
  iterate 5 refine Policy.run_perform (fun _ _ h => noFailure_of_pick h) trivial ?_
  exact .refl

/-- Alice has posted and deleted her account; the listener has not been told
anything yet. -/
def aliceDeleting : World village Unit := smooth.perform () .deleteAccount 100 ownPost

/-- The listener is shown Alice's post. -/
def aliceShown : World village Unit :=
  (step aliceDeleting (.notify () 0 .ok)).getD aliceDeleting

/-- The post is deleted too. -/
def aliceSwept : World village Unit := smooth.drain () 100 aliceShown

theorem aliceDeleting_noFailure : Run NoFailure emptyWorld aliceDeleting :=
  Policy.run_perform (fun _ _ h => noFailure_of_pick h) trivial ownPost_noFailure

theorem step_aliceDeleting : step aliceDeleting (.notify () 0 .ok) = some aliceShown :=
  step_getD (by decide)

theorem aliceShown_swept : Run NoFailure aliceShown aliceSwept :=
  Policy.run_drain (fun _ _ h => noFailure_of_pick h) .refl

theorem aliceSwept_noFailure : Run NoFailure emptyWorld aliceSwept := by
  have hshown : NoFailure aliceDeleting (.notify () 0 .ok) := fun _ h => by cases h
  exact (Run.step aliceDeleting_noFailure hshown step_aliceDeleting).trans aliceShown_swept

theorem aliceSwept_idle : aliceSwept.Idle := fun _ =>
  (by decide : (aliceSwept.devices ()).idle = true)

theorem references_known_aliceSwept : ReferencesKnown aliceSwept :=
  references_known aliceSwept_noFailure aliceSwept_idle

/-- Alice's account and her post are gone, and her feed still names the post. -/
theorem feed_names_deleted_post : ∃ w : World village Unit,
    Run NoFailure emptyWorld w ∧ w.Idle ∧ ∃ u p,
      (w.server.docs.get ⟨.userFeed u, p⟩).isSome ∧
        w.server.docs.get ⟨.posts, p⟩ = none :=
  ⟨aliceSwept, aliceSwept_noFailure, aliceSwept_idle, "n1", "n3", by decide, by decide⟩

/-- Alice has removed her post. -/
def ownPostRemoved : World village Unit :=
  ownPost
    |> smooth.perform () (.tapRemove 0 0) 100
    |> smooth.perform () (.answerAlert 0 true) 100

end DogVillage
