import DogVillage.Taps
import DogVillage.Async.Outcome
import Mathlib.Data.List.Permutation

/-!
# Actions that fail

What a follow, an unfollow, a like, an unlike or a comment leaves behind
when some of its writes are refused. The screens are changed before the
writes are answered, or whatever the answer is, so nothing is as before;
only a comment on one's own post, which sends no notification, leaves no
trace.
-/

namespace DogVillage

open Async

/-- The records an action is about. Feeds and notifications are its
follow-on effects. -/
def Tracked : Collection → Prop
  | .userFeed _ => False
  | .userNotifications _ => False
  | _ => True

/-- The actions in question. -/
def Social : Action → Prop
  | .tapActionButton _ => True
  | .tapLike _ _ => True
  | .sendComment _ _ => True
  | _ => False

/-- `isFollowed` and `stats.followers` of profile screen `i`. -/
def followDisplay (app : App) (i : Nat) : Option (Bool × Int) :=
  app.profiles[i]?.map fun screen : ProfileController =>
    (screen.user.isFollowed, screen.user.stats.followers)

/-- `didLike` and `likes` of cell `c` of feed `i`. -/
def likeDisplay (app : App) (i c : Nat) : Option (Bool × Int) :=
  (Action.shownPost app i c).map fun post => (post.didLike, post.likes)

/-- `w` is as `w₀` was: the records, what device `d` displays, and `o`, what
was seen there in between, shows no notification and no feed fan-out. -/
structure AsBefore {D : Type} (w₀ w : World village D) (d : D) (o : Multiset (Obs sig)) :
    Prop where
  records : ∀ r : Ref Collection, Tracked r.collection →
    w.server.docs.get r = w₀.server.docs.get r
  followed : ∀ i, followDisplay (w.devices d).loc i = followDisplay (w₀.devices d).loc i
  liked : ∀ i c, likeDisplay (w.devices d).loc i c = likeDisplay (w₀.devices d).loc i c
  effects : ∀ wr : Write, .issued wr ∈ o → Tracked wr.ref.collection

/-- A comment of which nobody is told: on a post of the account signed in. -/
def OwnComment (a : Action) (app : App) : Prop :=
  ∃ i comment post, a = .sendComment i comment ∧ app.comments[i]? = some ⟨post⟩ ∧
    ∀ uid, app.currentUser = some uid → post.ownerUid = uid

/-- Nothing but what is already under way on `d`. -/
def Alone {D : Type} (d : D) (e : Event village D) : Prop := e.device = d ∧ e.Own d

section

variable {D : Type} [DecidableEq D] {d : D} {w w' w₀ w₁ : World village D}
  {e : Event village D} {o : Multiset (Obs sig)}

/-! ## The documents and what was seen -/

theorem docs_of_step (hs : Stepped w e w') (hd : e.device = d) :
    ∃ o, w'.seen d = w.seen d + o ∧ ∀ r, (∀ wr, .wrote wr none ∈ o → wr.ref ≠ r) →
      w'.server.docs.get r = w.server.docs.get r := by
  cases hs with
  | act hmain => cases hd; exact ⟨_, World.seen_put, fun _ _ => rfl⟩
  | next hmain hin => cases hd; exact ⟨_, World.seen_put, fun _ _ => rfl⟩
  | finish htake => cases hd; exact ⟨_, World.seen_put, fun _ _ => rfl⟩
  | run htake hexec =>
      cases hd
      exact ⟨_, World.seen_put, fun r _ => by rw [World.put, docs_exec hexec]⟩
  | commit hw =>
      cases hd
      exact ⟨_, World.seen_put, fun r hr => docs_settle fun h => hr _ (by simp [h])⟩
  | answer hi hserve =>
      cases hd
      exact ⟨_, World.seen_put, fun r _ => by rw [World.put, docs_serve hserve]⟩
  | notify hi hserve =>
      cases hd
      exact ⟨_, World.seen_put, fun r _ => by rw [World.put, docs_serve hserve]⟩

/-- A document the device saw no write of is as it was, if only this device
acted. -/
theorem docs_of_run (hrun : Run (fun _ e => Alone d e) w₁ w) :
    ∃ o, w.seen d = w₁.seen d + o ∧ ∀ r, (∀ wr, .wrote wr none ∈ o → wr.ref ≠ r) →
      w.server.docs.get r = w₁.server.docs.get r := by
  induction hrun with
  | refl => exact ⟨0, by simp, fun _ _ => rfl⟩
  | step _ he hstep ih =>
      obtain ⟨o, ho, hdocs⟩ := ih
      obtain ⟨o', ho', hdocs'⟩ := docs_of_step (stepped_of_step hstep) he.1
      refine ⟨o + o', by rw [ho', ho, add_assoc], fun r hr => ?_⟩
      rw [hdocs' r fun wr h => hr wr (Multiset.mem_add.mpr (Or.inr h)),
        hdocs r fun wr h => hr wr (Multiset.mem_add.mpr (Or.inl h))]

end

/-! ## What each action shows -/

section

variable {I : App → Prop} {app : App} {o : Multiset (Obs sig)} {i c : Nat}

theorem still_currentUid {k : Uid → Block} (h : ∀ uid, (k uid).Still) : (currentUid k).Still := by
  refine Code.Still.get fun app => ?_
  cases app.currentUser with
  | none => trivial
  | some uid => exact h uid

theorem still_uploadNotification {uid : Uid} {fromUser : User} {type : NotificationType}
    {post : Option Post} :
    (NotificationService.uploadNotification uid fromUser type post).Still :=
  still_currentUid fun currentUid => by
    split
    · cases post <;> simp [Code.Still]
    · trivial

theorem still_uploadFollowNotification {uid : Uid} {fromUser : User} {type : NotificationType} :
    (NotificationService.uploadFollowNotification uid fromUser type).Still :=
  still_currentUid fun currentUid => by split <;> simp [Code.Still]

theorem still_updateUserFeedAfterFollowing {user : User} {didFollow : Bool} :
    (PostService.updateUserFeedAfterFollowing user didFollow).Still :=
  still_currentUid fun uid => by
    refine ⟨⟨fun (snapshot : Option (List (DocId × Dictionary))) => ?_, trivial⟩, trivial⟩
    cases snapshot with
    | none => trivial
    | some documents =>
        exact Code.Still.forEach fun document => by cases didFollow <;> simp [Code.Still]

/-- The change the completion of a follow or an unfollow makes to profile `i`. -/
def followChange (i : Nat) (isFollowed : Bool) (n : Int) (app : App) : App :=
  { app with profiles := app.profiles.modify i (ProfileController.setFollowed isFollowed n) }

theorem changes_onFollow {user currentUser : User} {e : Option FIRError}
    (h : Outcome I (ProfileController.onFollow i user currentUser e) o) :
    changes o = {followChange i true 1} := by
  obtain ⟨m, hm, rfl⟩ := h
  rw [changes_add, hm.still (still_updateUserFeedAfterFollowing.andThen
    still_uploadFollowNotification)]
  rfl

theorem changes_onUnfollow {user : User} {e : Option FIRError}
    (h : Outcome I (ProfileController.onUnfollow i user e) o) :
    changes o = {followChange i false (-1)} := by
  obtain ⟨m, hm, rfl⟩ := h
  rw [changes_add, hm.still still_updateUserFeedAfterFollowing]
  rfl

/-- The change a follow or unfollow makes to the screen is the only one,
whether its writes were refused or not. -/
theorem changes_profileTap {a : Op} {b : Block} (h : ProfileTap i app a b)
    (ho : Outcome I b o) :
    o = 0 ∨ (∃ profile, app.profiles[i]? = some profile) ∧
      ∃ f n, n ≠ 0 ∧ changes o = {followChange i f n} := by
  cases h with
  | none _ => exact Or.inl ho
  | follow hi =>
      obtain ⟨_, _, ⟨r₁, _, _, ⟨r₂, m, _, hm, rfl, rfl⟩, rfl, rfl⟩, rfl, rfl⟩ := ho
      exact Or.inr ⟨⟨_, hi⟩, true, 1, by omega, by simp [changes_onFollow hm]⟩
  | unfollow hi =>
      obtain ⟨_, _, ⟨r₁, _, _, ⟨r₂, m, _, hm, rfl, rfl⟩, rfl, rfl⟩, rfl, rfl⟩ := ho
      exact Or.inr ⟨⟨_, hi⟩, false, -1, by omega, by simp [changes_onUnfollow hm]⟩

/-- The change the completion of a like or an unlike makes to a cell. -/
def setLikes (i c : Nat) (n : Int) (app : App) : App :=
  { app with feeds := app.feeds.modify i (FeedController.setCell c ({ · with likes := n })) }

/-- A like or unlike whose writes were issued toggled its cell once, and at
most set its count besides. -/
theorem changes_likeTap {a : Op} {b : Block} (h : LikeTap i c app a b) (ho : Outcome I b o) :
    (∀ wr r, .wrote wr r ∉ o) ∨ (∃ post, Action.shownPost app i c = some post) ∧
      (changes o = {toggled i c} ∨ ∃ n, changes o = {setLikes i c n, toggled i c}) := by
  cases h with
  | none => rw [show o = 0 from ho]; simp
  | dropped =>
      obtain ⟨_, rfl, rfl⟩ := ho
      simp
  | @like post user uid hshown =>
      obtain ⟨_, ⟨_, _, ⟨r₀, _, _, rfl, ⟨r₁, _, _, ⟨r₂, m, _, hm, rfl, rfl⟩, rfl, rfl⟩, rfl⟩, rfl,
        rfl⟩, rfl⟩ := ho
      refine Or.inr ⟨⟨_, hshown⟩, ?_⟩
      cases r₂ with
      | some e => rw [show m = 0 from hm]; simp
      | none =>
          obtain ⟨m', hm', rfl⟩ := hm
          have hm' : Outcome I (NotificationService.uploadNotification post.ownerUid user .like
            (some post)) m' := hm'
          refine Or.inr ⟨post.likes + 1, ?_⟩
          simp [hm'.still still_uploadNotification]
          rfl
  | @unlike post user uid hshown =>
      obtain ⟨_, ⟨_, _, ⟨r₀, _, _, rfl, ⟨r₁, _, _, ⟨r₂, m, _, hm, rfl, rfl⟩, rfl, rfl⟩, rfl⟩, rfl,
        rfl⟩, rfl⟩ := ho
      refine Or.inr ⟨⟨_, hshown⟩, ?_⟩
      cases r₂ with
      | some e => rw [show m = 0 from hm]; simp
      | none =>
          obtain ⟨m', rfl, rfl⟩ := hm
          refine Or.inr ⟨post.likes - 1, ?_⟩
          simp
          exact Multiset.pair_comm _ _

/-- A notification goes out unless the account signed in is its addressee. -/
theorem outcome_uploadNotification {uid : Uid} {fromUser : User} {type : NotificationType}
    {post : Option Post}
    (h : Outcome I (NotificationService.uploadNotification uid fromUser type post) o) :
    ∃ app, I app ∧ ((o = 0 ∧ ∀ c, app.currentUser = some c → uid = c) ∨
      ∃ c id data, app.currentUser = some c ∧ uid ≠ c ∧
        .issued (.setData ⟨.userNotifications uid, id⟩ data) ∈ o) := by
  obtain ⟨app, hI, h⟩ := h
  refine ⟨app, hI, ?_⟩
  cases hc : app.currentUser with
  | none =>
      simp only [hc] at h
      exact Or.inl ⟨h, by simp⟩
  | some c =>
      simp only [hc] at h
      by_cases hu : uid = c
      · subst hu
        simp only [bne_self_eq_false, Bool.false_eq_true, if_false] at h
        exact Or.inl ⟨h, by simp⟩
      · simp only [bne_iff_ne, ne_eq, hu, not_false_eq_true, if_true] at h
        obtain ⟨_, _, ⟨e, _, ⟨r, _, _, rfl, rfl, rfl⟩, rfl⟩, rfl, rfl⟩ := h
        exact Or.inr ⟨c, e.uuid, _, rfl, hu, by simp; rfl⟩

theorem outcome_commentTap {comment : String} {a : Op} {b : Block}
    (h : CommentTap i comment app a b) (ho : Outcome I b o) :
    o = 0 ∨ ∃ post user e r m w, app.comments[i]? = some ⟨post⟩ ∧
      w.ref = ⟨.comments post.postId, e.uuid⟩ ∧
      o = {.changed (loader true), .supplied e, .issued w, .wrote w r,
        .changed (loader false)} + m ∧
      Outcome I (NotificationService.uploadNotification post.ownerUid user .comment (some post)) m
    := by
  cases h with
  | none => exact Or.inl ho
  | @send post user hi _ =>
      obtain ⟨_, ⟨_, _, ⟨e, _, ⟨r, _, _, ⟨m, hm, rfl⟩, rfl, rfl⟩, rfl⟩, rfl, rfl⟩, rfl⟩ := ho
      refine Or.inr ⟨post, user, e, r, m, .setData ⟨.comments post.postId, e.uuid⟩
        (CommentService.commentData comment user e.now), hi, rfl, ?_, hm⟩
      simp only [Multiset.insert_eq_cons, ← Multiset.singleton_add, add_zero, add_assoc]
      rfl

theorem changes_commentTap {comment : String} {a : Op} {b : Block}
    (h : CommentTap i comment app a b) (ho : Outcome I b o) :
    ∀ f ∈ changes o, f = loader true ∨ f = loader false := by
  rcases outcome_commentTap h ho with rfl | ⟨post, user, e, r, m, w, -, -, rfl, hm⟩
  · simp
  · simp [hm.still still_uploadNotification, or_comm]

end

/-! ## The three kinds of action -/

section

variable {D : Type} [DecidableEq D] {d : D} {w w₀ w₁ : World village D}
  {o : Multiset (Obs sig)} {i c : Nat} {app : App}

theorem followDisplay_followChange {profile : ProfileController} {f : Bool} {n : Int}
    (hi : app.profiles[i]? = some profile) (hn : n ≠ 0) :
    followDisplay (followChange i f n app) i ≠ followDisplay app i := by
  simp [followDisplay, followChange, hi, ProfileController.setFollowed, hn]

theorem didLike_toggled :
    (likeDisplay (toggled i c app) i c).map Prod.fst =
      ((likeDisplay app i c).map Prod.fst).map (!·) := by
  simp only [likeDisplay, Action.shownPost, toggled]
  cases hf : app.feeds[i]? with
  | none => simp [hf]
  | some feed => cases hc : feed.cells c <;> simp [hf, hc, FeedController.setCell]

theorem didLike_setLikes {n : Int} :
    (likeDisplay (setLikes i c n app) i c).map Prod.fst =
      (likeDisplay app i c).map Prod.fst := by
  simp only [likeDisplay, Action.shownPost, setLikes]
  cases hf : app.feeds[i]? with
  | none => simp [hf]
  | some feed => cases hc : feed.cells c <;> simp [hf, hc, FeedController.setCell]

/-- An action on an otherwise idle device, run until all is answered: what
was seen is an outcome of its block, and the memory is what the changes
seen made of it. -/
theorem seen_of_run {a : Action} (hidle : (w₀.devices d).idle = true)
    (hact : step w₀ (.act d a) = some w₁) (hrun : Run (fun _ e => Alone d e) w₁ w)
    (hdone : (w.devices d).idle = true) (hseen : w.seen d = w₀.seen d + o) :
    ∃ o', o = {.acted} + o' ∧
      Outcome (fun _ => True) (a.block.start (w₀.devices d).loc) o' ∧
      (∃ fs : List (App → App), (fs : Multiset (App → App)) = changes o' ∧
        (w.devices d).loc = fs.foldr (fun f l => f l) (w₀.devices d).loc) ∧
      ∀ I : App → Prop, I (w₀.devices d).loc → Kept I o' →
        Outcome I (a.block.start (w₀.devices d).loc) o' := by
  have hout : ∀ I : App → Prop, I (w₀.devices d).loc → ∃ o', o = {.acted} + o' ∧ (Kept I o' →
      Outcome I (a.block.start (w₀.devices d).loc) o') := fun I hI => by
    obtain ⟨o', ho', h⟩ := outcome_of_run I (fun _ _ h => h.2) hidle hact hrun hdone hI
    rw [hseen, add_assoc, add_right_inj] at ho'
    exact ⟨o', ho', fun hk => (h hk).2⟩
  obtain ⟨o', rfl, h⟩ := hout (fun _ => True) trivial
  refine ⟨o', rfl, h fun _ _ _ _ => trivial, ?_, fun I hI hk => ?_⟩
  · obtain ⟨m, fs, hm, hfs, hl⟩ := loc_of_run hrun d
    cases stepped_of_step hact with
    | act hmain =>
        rw [World.seen_put, hseen, add_assoc, add_right_inj] at hm
        rw [World.put_device] at hl
        exact ⟨fs, by rw [hfs, add_right_inj _ |>.mp hm], hl⟩
  · obtain ⟨o'', ho'', h'⟩ := hout I hI
    rw [add_right_inj] at ho''
    subst ho''
    exact h' hk

/-- Likewise a document of which no write that succeeded was seen is as it was. -/
theorem records_of_run {a : Action} (hact : step w₀ (.act d a) = some w₁)
    (hrun : Run (fun _ e => Alone d e) w₁ w) (hseen : w.seen d = w₀.seen d + o)
    {r : Ref Collection} (hr : ∀ wr, .wrote wr none ∈ o → wr.ref ≠ r) :
    w.server.docs.get r = w₀.server.docs.get r := by
  obtain ⟨m, hm, hdocs⟩ := docs_of_run hrun
  cases stepped_of_step hact with
  | act hmain =>
      rw [World.seen_put, hseen, add_assoc, add_right_inj] at hm
      exact hdocs r fun wr h => hr wr (by rw [hm]; exact Multiset.mem_add.mpr (Or.inr h))

theorem not_asBefore_of_profileTap (hidle : (w₀.devices d).idle = true)
    (hact : step w₀ (.act d (.tapActionButton i)) = some w₁)
    (hrun : Run (fun _ e => Alone d e) w₁ w) (hdone : (w.devices d).idle = true)
    (hseen : w.seen d = w₀.seen d + o) (hfail : ∃ wr r, .wrote wr r ∈ o) :
    ¬AsBefore w₀ w d o := by
  obtain ⟨o', rfl, hout, ⟨fs, hfs, hl⟩, -⟩ := seen_of_run hidle hact hrun hdone hseen
  obtain ⟨wr, r, hwr⟩ := hfail
  rcases changes_profileTap (profileTap i _) hout with rfl | ⟨⟨profile, hi⟩, f, n, hn, hc⟩
  · simp at hwr
  · intro h
    rw [hc, Multiset.coe_eq_singleton] at hfs
    have := h.followed i
    rw [hl, hfs] at this
    exact followDisplay_followChange hi hn this

theorem not_asBefore_of_likeTap (hidle : (w₀.devices d).idle = true)
    (hact : step w₀ (.act d (.tapLike i c)) = some w₁)
    (hrun : Run (fun _ e => Alone d e) w₁ w) (hdone : (w.devices d).idle = true)
    (hseen : w.seen d = w₀.seen d + o) (hfail : ∃ wr r, .wrote wr r ∈ o) :
    ¬AsBefore w₀ w d o := by
  obtain ⟨o', rfl, hout, ⟨fs, hfs, hl⟩, -⟩ := seen_of_run hidle hact hrun hdone hseen
  obtain ⟨wr, r, hwr⟩ := hfail
  intro h
  rcases changes_likeTap (likeTap i c _) hout with hno | ⟨⟨post, hshown⟩, hc⟩
  · exact hno wr r (by simpa using hwr)
  · have hflip : (likeDisplay (w.devices d).loc i c).map Prod.fst =
        ((likeDisplay (w₀.devices d).loc i c).map Prod.fst).map (!·) := by
      rw [hl]
      rcases hc with hc | ⟨n, hc⟩
      · rw [hc, Multiset.coe_eq_singleton] at hfs
        rw [hfs]
        exact didLike_toggled
      · rw [hc] at hfs
        rcases List.perm_pair.mp (Multiset.coe_eq_coe.mp hfs) with rfl | rfl
        · simp only [List.foldr, didLike_setLikes, didLike_toggled]
        · simp only [List.foldr, didLike_setLikes, didLike_toggled]
    rw [h.liked i c] at hflip
    simp [likeDisplay, hshown] at hflip

/-- A display no change touches is as it was. -/
theorem display_foldr {α : Type} (φ : App → α) : ∀ {fs : List (App → App)} {app : App},
    (∀ f ∈ fs, ∀ l, φ (f l) = φ l) → φ (fs.foldr (fun f l => f l) app) = φ app
  | [], _, _ => rfl
  | f :: fs, app, h => by
      rw [List.foldr, h f List.mem_cons_self, display_foldr φ fun g hg =>
        h g (List.mem_cons_of_mem _ hg)]

theorem asBefore_commentTap {comment : String} (hidle : (w₀.devices d).idle = true)
    (hact : step w₀ (.act d (.sendComment i comment)) = some w₁)
    (hrun : Run (fun _ e => Alone d e) w₁ w) (hdone : (w.devices d).idle = true)
    (hseen : w.seen d = w₀.seen d + o)
    (hfail : ∃ wr e, .wrote wr (some e) ∈ o ∧ Tracked wr.ref.collection) :
    AsBefore w₀ w d o ↔ OwnComment (.sendComment i comment) (w₀.devices d).loc := by
  obtain ⟨o', rfl, hout, ⟨fs, hfs, hl⟩, hI⟩ := seen_of_run hidle hact hrun hdone hseen
  obtain ⟨wr, err, hwr, htr⟩ := hfail
  have hloader := changes_commentTap (commentTap i comment _) hout
  -- so the account signed in stays the same, and the completion sees it
  have hkept : Kept (fun l : App => l.currentUser = (w₀.devices d).loc.currentUser) o' :=
    fun f hf l h => by
      rcases hloader f (mem_changes.mpr hf) with rfl | rfl <;> exact h
  rcases outcome_commentTap (commentTap i comment _)
    (hI (fun l => l.currentUser = (w₀.devices d).loc.currentUser) rfl hkept) with
    rfl | ⟨post, user, e, r, m, cw, hi, hcw, rfl, hm⟩
  · simp at hwr
  obtain ⟨app, happ, ⟨rfl, howner⟩ | ⟨c, id, data, hc, hne, hissued⟩⟩ :=
    outcome_uploadNotification hm
  · -- nobody is told: the one write is the comment's, and it was refused
    refine iff_of_true ⟨fun ref _ => ?_, fun i => ?_, fun i c => ?_, fun w' hw' => ?_⟩
      ⟨i, comment, post, rfl, hi, fun uid hu => howner uid (happ.trans hu)⟩
    · refine records_of_run hact hrun hseen fun wr' h => ?_
      have hcr : wr = cw ∧ some err = r := by simpa using hwr
      rw [← hcr.2] at h
      simp at h
    · rw [hl]
      exact display_foldr (followDisplay · i) fun f hf l => by
        rcases hloader f (hfs ▸ Multiset.mem_coe.mpr hf) with rfl | rfl <;> rfl
    · rw [hl]
      exact display_foldr (likeDisplay · i c) fun f hf l => by
        rcases hloader f (hfs ▸ Multiset.mem_coe.mpr hf) with rfl | rfl <;> rfl
    · have : w' = cw := by simpa using hw'
      rw [this, hcw]
      trivial
  · refine iff_of_false (fun h => ?_) fun ⟨j, t, post', hj, hp, ho⟩ => ?_
    · exact h.effects _ (Multiset.mem_add.mpr (Or.inr (Multiset.mem_add.mpr (Or.inr hissued))))
    · cases hj
      rw [hi, Option.some.injEq] at hp
      cases hp
      exact hne (ho c (happ.symm.trans hc))

end

/-! ## All of them -/

/-- A social action on an idle device, run until everything is answered with
nothing else going on, some of its own writes refused: all is as before
exactly for a comment on a post of the account signed in. -/
theorem asBefore_iff_ownComment {D : Type} [DecidableEq D] {d : D} {a : Action}
    {w₀ w₁ w : World village D} {o : Multiset (Obs sig)} (ha : Social a)
    (hidle : (w₀.devices d).idle = true) (hact : step w₀ (.act d a) = some w₁)
    (hrun : Run (fun _ e => Alone d e) w₁ w) (hdone : (w.devices d).idle = true)
    (hseen : w.seen d = w₀.seen d + o)
    (hfail : ∃ wr e, .wrote wr (some e) ∈ o ∧ Tracked wr.ref.collection) :
    AsBefore w₀ w d o ↔ OwnComment a (w₀.devices d).loc := by
  have hwrote : ∃ wr r, .wrote wr r ∈ o := by
    obtain ⟨wr, e, h, -⟩ := hfail
    exact ⟨wr, some e, h⟩
  cases a with
  | tapActionButton i =>
      exact iff_of_false (not_asBefore_of_profileTap hidle hact hrun hdone hseen hwrote)
        fun ⟨_, _, _, h, _⟩ => by cases h
  | tapLike i c =>
      exact iff_of_false (not_asBefore_of_likeTap hidle hact hrun hdone hseen hwrote)
        fun ⟨_, _, _, h, _⟩ => by cases h
  | sendComment i comment => exact asBefore_commentTap hidle hact hrun hdone hseen hfail
  | _ => exact ha.elim

/-- Everything succeeds but the writes to the collections `refuses` names. -/
def refusing (refuses : Collection → Bool) : Policy village :=
  { smooth with refuse := fun w => if refuses w.ref.collection then some (.other 7) else none }

/-- Alice has the comments of her own post on display. -/
def ownComments : World village Unit := smooth.perform () (.tapComment 0 0) 100 ownPost

/-- She sends one. -/
def sentComment : World village Unit :=
  (step ownComments (.act () (.sendComment 0 "woof"))).getD ownComments

/-- The comment is refused. -/
def refusedComment : World village Unit :=
  (refusing (· == .comments "n3")).drain () 30 sentComment

theorem asBefore_refusedComment : ∃ o : Multiset (Obs sig),
    refusedComment.seen () = ownComments.seen () + o ∧
      (∃ wr e, .wrote wr (some e) ∈ o ∧ Tracked wr.ref.collection) ∧
      AsBefore ownComments refusedComment () o := by
  have hcomment : OwnComment (.sendComment 0 "woof") (ownComments.devices ()).loc := by
    refine ⟨0, "woof", _, rfl, rfl, fun uid huid => ?_⟩
    have halice : (ownComments.devices ()).loc.currentUser = some "n1" := by decide
    rw [halice] at huid
    cases huid
    decide
  have hrun : Run (fun _ e => Alone () e) sentComment refusedComment :=
    Policy.run_drain (fun _ _ h => Policy.pick_own h) .refl
  obtain ⟨o, hseen, data, hwrote⟩ : ∃ o : Multiset (Obs sig),
      refusedComment.seen () = ownComments.seen () + o ∧
        ∃ data, .wrote (.setData ⟨.comments "n3", "n6"⟩ data) (some (.other 7)) ∈ o :=
    ⟨_, World.seen_of_log (l := refusedComment.log.take 6) rfl, _,
      Multiset.mem_coe.mpr (List.mem_of_getElem? (i := 1) rfl)⟩
  have hfail : ∃ wr e, .wrote wr (some e) ∈ o ∧ Tracked wr.ref.collection :=
    ⟨_, _, hwrote, trivial⟩
  exact ⟨o, hseen, hfail, (asBefore_iff_ownComment (a := .sendComment 0 "woof") trivial rfl rfl
    hrun rfl hseen hfail).mpr hcomment⟩

/-- Alice taps the like button. -/
def tappedLike : World village Unit :=
  (step ownPost (.act () (.tapLike 0 0))).getD ownPost

/-- The post-likes write is refused. -/
def failedLike : World village Unit := (refusing (· == .postLikes "n3")).drain () 30 tappedLike

/-- Of a like whose post-likes write was refused the toggled button, the
counter and the entry in user-likes stay. -/
theorem failedLike_leaves_trace : ∃ w₁ w o,
    Run (fun _ _ => True) emptyWorld ownPost ∧ (ownPost.devices ()).idle = true ∧
      step ownPost (.act () (.tapLike 0 0)) = some w₁ ∧ Run (fun _ e => Alone () e) w₁ w ∧
      (w.devices ()).idle = true ∧ w.seen () = ownPost.seen () + o ∧
      (∃ wr e, .wrote wr (some e) ∈ o ∧ Tracked wr.ref.collection) ∧
      ¬AsBefore ownPost w () o := by
  refine ⟨tappedLike, failedLike, _, ownPost_reached.mono fun _ _ _ => trivial, rfl, rfl,
    Policy.run_drain (fun _ _ h => Policy.pick_own h) .refl, rfl,
    World.seen_of_log (l := failedLike.log.take 9) rfl,
    ⟨.setData ⟨.postLikes "n3", "n1"⟩ [], .other 7, ?_, trivial⟩, ?_⟩
  · exact Multiset.mem_coe.mpr (List.mem_of_getElem? (i := 3) rfl)
  · exact fun h => absurd (h.liked 0 0) (by decide)

end DogVillage
