import DogVillage.Async.Leaves
import DogVillage.Bylines
import DogVillage.FollowPaths
import DogVillage.SoundRun

/-!
# Who writes a feed

A feed is written by two fan-outs: an upload puts the new post into the
feeds of its owner's followers, a follow or an unfollow puts the posts of
one account into one feed or takes them out. Each writes by what it read a
while ago. Stated here, before any run: what each may write as long as
what it reads stays as it is, and what it owes.
-/

namespace DogVillage

open Async

/-! ## The calls -/

/-- The call that uploads a post of `b`. -/
def uploadBy (b : Uid) : Call := ⟨some b, .upload⟩

/-- The call by which `v` follows `b`, or no longer does. -/
def edgeBy (gone : Bool) (v b : Uid) : Call := ⟨some v, if gone then .unfollow b else .follow b⟩

/-- The call brings feeds up to date. -/
def Call.feeds (t : Call) : Bool :=
  match t.op with
  | .upload | .follow _ | .unfollow _ => t.actor.isSome
  | _ => false

/-- The account a call that brings feeds up to date stems from is signed in. -/
def Call.SignedIn (t : Call) (app : App) : Prop := t.feeds = true → app.currentUser = t.actor

@[simp] theorem feeds_uploadBy {b : Uid} : (uploadBy b).feeds = true := rfl

@[simp] theorem feeds_edgeBy {gone : Bool} {v b : Uid} : (edgeBy gone v b).feeds = true := by
  cases gone <;> rfl

theorem uploadBy_ne_edgeBy {gone : Bool} {v b b' : Uid} : uploadBy b ≠ edgeBy gone v b' := by
  intro h
  have hop := congrArg Call.op h
  cases gone <;> cases hop

theorem edgeBy_inj {gone gone' : Bool} {v v' b b' : Uid}
    (h : edgeBy gone v b = edgeBy gone' v' b') : gone = gone' ∧ v = v' ∧ b = b' := by
  obtain ⟨hv, hop⟩ := Call.mk.inj h
  cases hv
  cases gone <;> cases gone' <;> cases hop <;> exact ⟨rfl, rfl, rfl⟩

/-- The posts of `b` belong into the feed of `v`. -/
def Server.shares (srv : Server) (v b : Uid) : Prop :=
  v = b ∨ srv.present ⟨.userFollowers b, v⟩ = true

abbrev followersQuery (b : Uid) : Query Collection Value := { collection := .userFollowers b }

/-! ## What may be written -/

section

variable {D : Type}

/-- Who counts as a follower, and the log so far. -/
structure View (D : Type) where
  /-- `followers b v`: `v` is a follower of `b`. -/
  followers : Uid → Uid → Prop
  log : Log D

/-- The posts of `b` may go into the feed of `v`. -/
def View.shares (g : View D) (v b : Uid) : Prop := v = b ∨ g.followers b v

/-- A follow, or a document of a feed, is written by a call about it; a post
by its owner's upload. -/
def FeedWrite (g : View D) (t : Call) (w : Write) : Prop :=
  match w.ref.collection with
  | .userFeed v => ∃ b gone, w = markWrite gone w.ref ∧ Owner g.log w.ref.id b ∧
      (t = edgeBy gone v b ∨ gone = false ∧ t = uploadBy b ∧ g.shares v b)
  | .userFollowing v => ∃ gone, w = markWrite gone w.ref ∧ t = edgeBy gone v w.ref.id
  | .userFollowers b => ∃ gone, w = markWrite gone w.ref ∧ t = edgeBy gone w.ref.id b
  | .posts => t.op = .upload → ∃ b, t = uploadBy b ∧ Owner g.log w.ref.id b
  | _ => True

/-- The followers an upload reads are followers; the posts of `b` are
owned by `b`. -/
def FeedAnswer (g : View D) (t : Call) : (q : Ask) → q.Ans → Prop
  | .getDocuments q, a => ∀ documents, a = some documents → ∀ x ∈ documents,
      (∀ b, t = uploadBy b → q = followersQuery b → g.followers b x.1) ∧
        ∀ b, q = postsQuery b → Owner g.log x.1 b
  | _, _ => True

/-- What a call relies on meanwhile: `b` loses no follower while `b` uploads. -/
structure FeedRely (t : Call) (g g' : View D) : Prop where
  log : g.log <:+ g'.log
  followers : ∀ b, t = uploadBy b → ∀ v, g.followers b v → g'.followers b v

theorem FeedRely.refl {t : Call} {g : View D} : FeedRely t g g :=
  ⟨List.suffix_rfl, fun _ _ _ h => h⟩

theorem FeedRely.trans {t : Call} {g₁ g₂ g₃ : View D} (h : FeedRely t g₁ g₂)
    (h' : FeedRely t g₂ g₃) : FeedRely t g₁ g₃ :=
  ⟨h.log.trans h'.log, fun b hb v hv => h'.followers b hb v (h.followers b hb v hv)⟩

theorem FeedRely.shares {g g' : View D} {v b : Uid} (h : FeedRely (uploadBy b) g g')
    (hs : g.shares v b) : g'.shares v b :=
  hs.imp_right (h.followers b rfl v)

theorem FeedWrite.mono {t : Call} {g g' : View D} {w : Write} (h : FeedRely t g g')
    (hw : FeedWrite g t w) : FeedWrite g' t w := by
  unfold FeedWrite at hw ⊢
  split
  · next hc =>
      simp only [hc] at hw
      obtain ⟨b, gone, hwr, ho, hby⟩ := hw
      refine ⟨b, gone, hwr, ho.mono h.log, hby.imp_right ?_⟩
      rintro ⟨hg, rfl, hs⟩
      exact ⟨hg, rfl, h.shares hs⟩
  · next hc => simp only [hc] at hw; exact hw
  · next hc => simp only [hc] at hw; exact hw
  · next hc =>
      simp only [hc] at hw
      exact fun ht => (hw ht).imp fun b hb => ⟨hb.1, hb.2.mono h.log⟩
  · trivial

theorem FeedWrite.edge {g : View D} {t : Call} {w : Write} {v b : Uid} {r : Ref Collection}
    (hw : FeedWrite g t w) (href : w.ref = r) (hr : Edge v b r) :
    ∃ gone, w = markWrite gone r ∧ t = edgeBy gone v b := by
  subst href
  unfold FeedWrite at hw
  rcases hr with hr | hr <;> rw [hr] at hw <;> rw [hr] <;> exact hw

theorem FeedWrite.feed {g : View D} {t : Call} {w : Write} {v : Uid} {p : DocId}
    (hw : FeedWrite g t w) (href : w.ref = ⟨.userFeed v, p⟩) :
    ∃ b gone, w = markWrite gone ⟨.userFeed v, p⟩ ∧ Owner g.log p b ∧
      (t = edgeBy gone v b ∨ gone = false ∧ t = uploadBy b ∧ g.shares v b) := by
  unfold FeedWrite at hw
  rw [href] at hw
  exact hw

theorem FeedWrite.post {g : View D} {t : Call} {p : DocId} {data : Dictionary}
    (hw : FeedWrite g t (.setData ⟨.posts, p⟩ data)) (ht : t.op = .upload) :
    ∃ b, t = uploadBy b ∧ Owner g.log p b := hw ht

/-- The fan-outs, each relying on what it reads; who counts as a follower is
read off the server or the log. -/
def fanoutsBy (read : Server → Log D → Uid → Uid → Prop) : Spec village D (View D) where
  view srv log := ⟨read srv log, log⟩
  rely _ t := FeedRely t
  loc _ _ _ := True
  sees _ t := t.SignedIn
  write g _ t w _ := FeedWrite g t w
  ask _ _ _ _ _ := True
  listen _ _ _ _ _ := True
  answer g _ t q a := FeedAnswer g t q a
  env g _ t e := ∀ u, t.actor = some u → Owner g.log e.uuid u
  rely_refl _ _ _ := .refl
  rely_trans _ _ _ _ _ h h' := h.trans h'
  loc_stable _ _ _ _ _ _ _ := trivial
  write_stable _ _ _ _ _ _ h hw := hw.mono h
  ask_stable _ _ _ _ _ _ _ _ := trivial
  listen_stable _ _ _ _ _ _ _ _ := trivial

/-- Who is a follower now. -/
def fanouts : Spec village D (View D) :=
  fanoutsBy fun srv _ b v => srv.present ⟨.userFollowers b, v⟩ = true

abbrev FanoutCode (read : Server → Log D → Uid → Uid → Prop) (d : D) (t : Call) (b : Block)
    (g : View D) : Prop := (fanoutsBy read).Ok d t b g

/-! ## What the calls write -/

section

variable {read : Server → Log D → Uid → Uid → Prop} {d : D} {t : Call} {g : View D}
  {C : Collection → Prop} {F : Part → Prop}
  {gone : Bool} {v b : Uid}

/-- Neither a follow nor a feed nor a post is in the collection. -/
def OffFeeds : Collection → Prop
  | .userFeed _ | .userFollowing _ | .userFollowers _ | .posts => False
  | _ => True

theorem feedWrite_off {w : Write} (h : OffFeeds w.ref.collection) : FeedWrite g t w := by
  unfold FeedWrite
  cases hc : w.ref.collection with
  | userFeed _ | userFollowing _ | userFollowers _ | posts => rw [hc] at h; exact h.elim
  | _ => trivial

/-- Code that writes none of these documents, and lets nobody sign in or out. -/
theorem fanout_of_edits {c : Block} (hedits : Edits F c) (htouches : Touches C c)
    (hu : ¬F .currentUser) (hC : ∀ k, C k → OffFeeds k) : FanoutCode read d t c g := by
  have hunder : c.Under (fun _ => True) (fun _ _ => True) fun
      | .issued w => OffFeeds w.ref.collection
      | .changed f => ∀ app : App, (f app).currentUser = app.currentUser
      | _ => True :=
    under_of_edits ⟨fun _ _ => trivial, fun _ => trivial⟩ (fun _ => trivial) hedits htouches
      (fun w hw => ⟨hC _ hw, fun _ => trivial⟩) fun f hf app => hf app .currentUser hu
  refine Spec.Ok.of_under (fun _ _ _ _ => trivial) (fun _ _ _ _ => trivial)
    (fun _ _ _ hw => feedWrite_off hw) (fun _ _ _ => trivial) (fun _ _ _ => trivial)
    (fun f hf => ⟨fun _ _ _ => trivial, fun app happ ht => ?_⟩) hunder
  rw [← happ ht]
  exact hf app

theorem fanout_currentUid {k : Uid → Block} {u : Uid} (ht : t.feeds = true)
    (hu : t.actor = some u) (hk : ∀ g', FeedRely t g g' → FanoutCode read d t (k u) g') :
    FanoutCode read d t (currentUid k) g := by
  intro g' hr app _ happ
  have hcu : app.currentUser = some u := (happ ht).trans hu
  simp only [hcu]
  exact hk g' hr

theorem fanout_uploadImage {image : UIImage} {k : String → Block}
    (hk : ∀ g', FeedRely t g g' → ∀ url, FanoutCode read d t (k url) g') :
    FanoutCode read d t (ImageUploader.uploadImage image k) g := by
  rw [ImageUploader.uploadImage]
  split
  · trivial
  · refine fun g₁ h₁ e _ => ⟨trivial, fun g₂ h₂ (error : Option FIRError) _ => ?_, trivial⟩
    cases error with
    | some _ => trivial
    | none =>
        refine ⟨trivial, fun g₃ h₃ (url : Option String) _ => ?_, trivial⟩
        cases url with
        | none => trivial
        | some imageUrl => exact hk g₃ ((h₁.trans h₂).trans h₃) imageUrl

/-- A write nobody waits for. -/
theorem fanout_write {w : Write} (hw : FeedWrite g t w) :
    FanoutCode read d t (.write w (fun _ => .done) .done) g :=
  ⟨hw, fun _ _ _ => trivial, fun _ _ _ => trivial⟩

theorem fanout_updateUserFeedAfterPost {p : DocId} (ho : Owner g.log p b) :
    FanoutCode read d (uploadBy b) (PostService.updateUserFeedAfterPost p) g := by
  have hfeed : ∀ {g' : View D} {u : Uid}, FeedRely (uploadBy b) g g' → g'.shares u b →
      FeedWrite g' (uploadBy b) (.setData ⟨.userFeed u, p⟩ []) := fun hr hs =>
    ⟨b, false, rfl, ho.mono hr.log, Or.inr ⟨rfl, rfl, hs⟩⟩
  refine fanout_currentUid rfl rfl fun g₁ h₁ =>
    ⟨trivial, fun g₂ h₂ (a : Option (List (DocId × Dictionary))) ha => ?_, trivial⟩
  cases a with
  | none => trivial
  | some documents =>
      have h := h₁.trans h₂
      refine Spec.Ok.andThen (Spec.Ok.forEach fun x hx => fanout_write (hfeed h (Or.inr ?_)))
        (fanout_write (hfeed h (Or.inl rfl)))
      exact (ha documents rfl x hx).1 b rfl rfl

theorem fanout_onUpload (e : Option FIRError) :
    FanoutCode read d t (UploadPostController.onUpload e) g :=
  fanout_of_edits (F := fun p => p = .hud ∨ p = .feeds) (C := fun _ => False)
    (edits_onUpload (Or.inl rfl) (Or.inr rfl) e) (touches_onUpload e) (by simp)
    fun _ h => h.elim

theorem fanout_uploadWrites {caption : String} {image : UIImage} {user : User} :
    FanoutCode read d (uploadBy b)
      (uploadWrites caption image user b UploadPostController.onUpload) g := by
  refine ⟨fanout_uploadImage fun g₁ _ url g₂ h₂ e he => ?_, trivial⟩
  refine ⟨fun _ => ⟨b, rfl, he b rfl⟩, fun _ _ => fanout_onUpload, fun g₃ h₃ _ => ?_⟩
  exact fanout_updateUserFeedAfterPost ((he b rfl).mono h₃.log)

theorem fanout_updateUserFeedAfterFollowing {user : User} {didFollow : Bool}
    (ht : t = edgeBy (!didFollow) v user.uid) :
    FanoutCode read d t (PostService.updateUserFeedAfterFollowing user didFollow) g := by
  subst ht
  refine fanout_currentUid feeds_edgeBy rfl fun g₁ _ =>
    ⟨⟨trivial, fun g₂ _ (a : Option (List (DocId × Dictionary))) ha => ?_, trivial⟩, trivial⟩
  cases a with
  | none => trivial
  | some documents =>
      refine Spec.Ok.forEach fun x hx => ?_
      have ho := (ha documents rfl x hx).2 user.uid rfl
      cases didFollow with
      | true => exact fanout_write ⟨user.uid, false, rfl, ho, Or.inl rfl⟩
      | false => exact fanout_write ⟨user.uid, true, rfl, ho, Or.inl rfl⟩

theorem fanout_onEdge (gone : Bool) {i : Nat} {user : User} (currentUser : User)
    (e : Option FIRError) :
    FanoutCode read d (edgeBy gone v user.uid) (onEdge i gone user currentUser e) g := by
  have hfeed : ∀ g', FanoutCode read d (edgeBy gone v user.uid)
      (PostService.updateUserFeedAfterFollowing user (!gone)) g' := fun g' =>
    fanout_updateUserFeedAfterFollowing (v := v) (by rw [Bool.not_not])
  have hmodify : ∀ {f : ProfileController → ProfileController} {n : Block},
      FanoutCode read d (edgeBy gone v user.uid) n g →
      FanoutCode read d (edgeBy gone v user.uid) (ProfileController.modify i f >> n) g := fun hn =>
    ⟨fun _ _ _ _ => trivial, fun _ h ht => h ht, hn⟩
  cases gone with
  | true => exact hmodify (hfeed g)
  | false =>
      refine hmodify (Spec.Ok.andThen ?_ (hfeed g))
      exact fanout_of_edits (F := fun _ => False) (C := OffFeeds)
        (under_uploadFollowNotification plain_frame fun _ => sends_frame _)
        (touches_uploadFollowNotification trivial) id fun _ h => h

theorem fanout_edgeWrites (gone : Bool) {u : Uid} {k : Completion}
    (hk : ∀ g e, FanoutCode read d (edgeBy gone v u) (k e) g) :
    FanoutCode read d (edgeBy gone v u) (edgeWrites gone v u k) g := by
  cases gone with
  | true =>
      refine ⟨⟨⟨true, rfl, rfl⟩, fun _ _ _ => ⟨⟨true, rfl, rfl⟩, fun g _ e => ?_,
        fun _ _ _ => trivial⟩, fun _ _ _ => trivial⟩, trivial⟩
      exact hk g e
  | false =>
      refine ⟨⟨⟨false, rfl, rfl⟩, fun _ _ _ => ⟨⟨false, rfl, rfl⟩, fun g _ e => ?_,
        fun _ _ _ => trivial⟩, fun _ _ _ => trivial⟩, trivial⟩
      exact hk g e

theorem fanout_onTap {i c : Nat} (e : Option FIRError) :
    FanoutCode read d t (NotificationController.onTap i c e) g :=
  fanout_of_edits (F := fun p => p = .hud ∨ p = .notifications) (C := fun _ => False)
    (edits_onTap (Or.inr rfl) (Or.inl rfl) e) (touches_onTap e) (by simp) fun _ h => h.elim

/-! ## Every action -/

/-- Only three buttons bring feeds up to date. -/
theorem feeds_op {a : Action} {app : App} {u : Option Uid}
    (h : (⟨u, a.op app⟩ : Call).feeds = true) :
    (∃ i caption, a = .tapDone i caption) ∨ (∃ i, a = .tapActionButton i) ∨
      ∃ i c, a = .tapFollow i c := by
  have hs := a.starts app
  generalize a.op app = op at hs h
  cases hs with
  | upload => exact Or.inl ⟨_, _, rfl⟩
  | follow | unfollow => exact Or.inr (Or.inl ⟨_, rfl⟩)
  | followBack | unfollowBack => exact Or.inr (Or.inr ⟨_, _, rfl⟩)
  | _ => cases h

/-- What is written is of these collections. -/
def WritesTo (C : Collection → Prop) : Obs sig → Prop
  | .issued w => C w.ref.collection
  | _ => True

theorem fanout_other {c : Block} (htouches : Touches C c) (hC : ∀ k, C k → k = .posts ∨ OffFeeds k)
    (hop : t.op ≠ .upload) (ht : t.feeds = false) : FanoutCode read d t c g := by
  have hunder : c.Under (fun _ => True) (fun _ _ => True) (WritesTo C) :=
    htouches.under (fun w hw => ⟨hw, fun _ => trivial⟩) (fun _ _ => trivial) (fun _ => trivial)
      (fun _ => trivial) fun _ => trivial
  refine Spec.Ok.of_under (fun _ _ _ _ => trivial) (fun _ _ _ _ => trivial)
    (fun g w _ hw => ?_) (fun _ _ _ => trivial) (fun _ _ _ => trivial)
    (fun f _ => ⟨fun _ _ _ => trivial, fun app _ hf => ?_⟩) hunder
  · rcases hC _ hw with hposts | hoff
    · show FeedWrite g t w
      unfold FeedWrite
      rw [hposts]
      exact fun h => absurd h hop
    · exact feedWrite_off hoff
  · rw [ht] at hf
    cases hf

theorem fanout_action (a : Action) (app : App) :
    FanoutCode read d ⟨app.currentUser, a.op app⟩ (a.block.start app) g := by
  have hmodify : ∀ {t : Call} {n : Block}, FanoutCode read d t n g →
      FanoutCode read d t (.modify (loader true) n) g := fun hn =>
    ⟨fun _ _ _ _ => trivial, fun _ h ht => h ht, hn⟩
  by_cases hact : (∃ i caption, a = .tapDone i caption) ∨ (∃ i, a = .tapActionButton i) ∨
      ∃ i c, a = .tapFollow i c
  · rcases hact with ⟨i, caption, rfl⟩ | ⟨i, rfl⟩ | ⟨i, c, rfl⟩
    · have htap := uploadTap i caption app
      generalize (Action.tapDone i caption).op app = op at htap ⊢
      generalize (Action.tapDone i caption).block.start app = c at htap ⊢
      cases htap with
      | none => trivial
      | dropped => exact hmodify trivial
      | upload hi huid =>
          rw [huid]
          exact hmodify fanout_uploadWrites
    · have htap := profileTap i app
      generalize (Action.tapActionButton i).op app = op at htap ⊢
      generalize (Action.tapActionButton i).block.start app = c at htap ⊢
      cases htap with
      | none => trivial
      | follow _ _ _ huid =>
          rw [huid]
          exact fanout_edgeWrites false fun _ => fanout_onEdge false _
      | @unfollow profile user currentUser uid _ _ _ huid =>
          rw [huid]
          exact fanout_edgeWrites true fun _ => fanout_onEdge true currentUser
    · have htap := notificationTap i c app
      generalize (Action.tapFollow i c).op app = op at htap ⊢
      generalize (Action.tapFollow i c).block.start app = b at htap ⊢
      cases htap with
      | none => trivial
      | dropped => exact hmodify trivial
      | follow _ huid =>
          rw [huid]
          exact hmodify (fanout_edgeWrites false fun _ => fanout_onTap)
      | unfollow _ huid =>
          rw [huid]
          exact hmodify (fanout_edgeWrites true fun _ => fanout_onTap)
  · have hfeeds : ∀ u, (⟨u, a.op app⟩ : Call).feeds = false := fun u =>
      Bool.eq_false_iff.mpr fun hf => hact (feeds_op hf)
    simp only [not_or, not_exists] at hact
    refine fanout_other (touches_action a app) (fun k hk => ?_) (fun hop => ?_) (hfeeds _)
    · cases a with
      | tapDone i caption => exact absurd rfl (hact.1 i caption)
      | tapActionButton i => exact absurd rfl (hact.2.1 i)
      | tapFollow i c => exact absurd rfl (hact.2.2 i c)
      | _ => cases k <;> first | exact Or.inl rfl | exact Or.inr trivial | exact hk.elim
    · have h := hfeeds (some "")
      rw [show a.op app = .upload from hop] at h
      cases h

end

end

/-! ## What the calls owe -/

/-- A query is answered, and as `P` has it. -/
def AnsweredBy (q : Query Collection Value) (P : List (DocId × Dictionary) → Prop) :
    (q' : Ask) → q'.Ans → Prop
  | .getDocuments q', a => q' = q → ∃ documents, a = some documents ∧ P documents
  | _, _ => True

/-- The post `p` of `b` is put into the feed of `v`, one of the followers that are read. -/
def sharing (v b : Uid) (p : DocId) : Debt sig where
  write wr := wr = markWrite false ⟨.userFeed v, p⟩
  ans := AnsweredBy (followersQuery b) fun documents => v = b ∨ ∃ x ∈ documents, x.1 = v
  loc app := app.currentUser = some b

/-- A document is marked that says that `v` follows `b`, or shows `v` a post of
`b` that is read. -/
def joining (gone : Bool) (v b : Uid) (r : Ref Collection) : Debt sig where
  write wr := wr = markWrite gone r
  ans := AnsweredBy (postsQuery b) fun documents =>
    ∀ p, r = ⟨.userFeed v, p⟩ → ∃ x ∈ documents, x.1 = p
  loc app := app.currentUser = some v

section

variable {t : Call} {gone : Bool} {v b : Uid} {p : DocId} {r : Ref Collection} {i : Nat}
  {user currentUser : User}

theorem owes_currentUid {debt : Debt sig} {k : Uid → Block}
    (hu : ∀ app, debt.loc app → app.currentUser = some b) (hk : debt.Owes (k b)) :
    debt.Owes (currentUid k) := by
  intro app happ
  simp only [hu app happ]
  exact hk

theorem keeps_currentUid {debt : Debt sig} {k : Uid → Block} (hk : ∀ u, debt.Keeps (k u)) :
    debt.Keeps (currentUid k) := by
  intro app _
  cases hu : app.currentUser with
  | none => simp only [hu]; trivial
  | some u => simp only [hu]; exact hk u

theorem owes_updateUserFeedAfterPost :
    (sharing v b p).Owes (PostService.updateUserFeedAfterPost p) := by
  refine owes_currentUid (fun _ h => h) (Or.inr (Or.inl fun
    (a : Option (List (DocId × Dictionary))) ha => ?_))
  obtain ⟨documents, rfl, hmem⟩ := ha rfl
  by_cases hv : ∃ x ∈ documents, x.1 = v
  · obtain ⟨x, hx, rfl⟩ := hv
    refine Debt.Owes.andThen_left (Debt.Owes.forEach hx ?_ fun _ _ => ?_)
    · exact Or.inl rfl
    · trivial
  · obtain rfl := hmem.resolve_right hv
    refine Debt.Owes.andThen_right ?_ (Debt.Keeps.forEach fun _ _ => ?_)
    · exact Or.inl rfl
    · trivial

theorem owes_updateUserFeedAfterFollowing (gone : Bool) :
    (joining gone v user.uid ⟨.userFeed v, p⟩).Owes
      (PostService.updateUserFeedAfterFollowing user (!gone)) := by
  refine owes_currentUid (fun _ h => h) (Or.inl (Or.inr (Or.inl fun
    (a : Option (List (DocId × Dictionary))) ha => ?_)))
  obtain ⟨documents, rfl, hmem⟩ := ha rfl
  obtain ⟨x, hx, rfl⟩ := hmem p rfl
  refine Debt.Owes.forEach hx ?_ fun y _ => ?_
  · cases gone <;> exact Or.inl rfl
  · cases gone <;> trivial

theorem owes_onEdge (e : Option FIRError) :
    (joining gone v user.uid ⟨.userFeed v, p⟩).Owes (onEdge i gone user currentUser e) := by
  cases gone with
  | true => exact ⟨fun _ h => h, owes_updateUserFeedAfterFollowing true⟩
  | false =>
      refine ⟨fun _ h => h, Debt.Owes.andThen_right
        (owes_updateUserFeedAfterFollowing false) (keeps_currentUid fun u => ?_)⟩
      split <;> trivial

/-- A follow or unfollow marks both edges, and every post it reads. -/
theorem owes_edgeWrites (hr : Edge v user.uid r ∨ ∃ p, r = ⟨.userFeed v, p⟩) :
    (joining gone v user.uid r).Owes
      (edgeWrites gone v user.uid (onEdge i gone user currentUser)) := by
  have hwrites : ∀ {w₁ w₂ : Write} {k : Completion},
      (joining gone v user.uid r).write w₁ ∨ (joining gone v user.uid r).write w₂ ∨
        (∀ e, (joining gone v user.uid r).Owes (k e)) →
      (joining gone v user.uid r).Owes
        (.global (.write w₁ (fun _ => .write w₂ k .done) .done) .done) := by
    rintro w₁ w₂ k (h | h | h)
    · exact Or.inl (Or.inl h)
    · exact Or.inl (Or.inr (Or.inl fun _ _ => Or.inl h))
    · exact Or.inl (Or.inr (Or.inl fun _ _ => Or.inr (Or.inl fun e _ => h e)))
  rcases hr with (rfl | rfl) | ⟨p, rfl⟩
  · cases gone <;> exact hwrites (Or.inl rfl)
  · cases gone <;> exact hwrites (Or.inr (Or.inl rfl))
  · cases gone <;> exact hwrites (Or.inr (Or.inr fun e => owes_onEdge e))

/-! ## What a post that is sent leaves to do -/

/-- The post is still to be put into the feeds of its owner's followers. -/
def SharesNext (t : Call) (w : Write) (n : Block) : Prop :=
  ∀ b p data, t = uploadBy b → w = .setData ⟨.posts, p⟩ data → ∀ v, (sharing v b p).Owes n

theorem sharesNext_start {w : Write} {n : Block} {app : App} (happ : t.SignedIn app)
    (h : SharesNext t w n) : SharesNext t w (n.start app) := by
  rintro b p data rfl rfl v
  exact (h b p data rfl rfl v).start (happ rfl)

theorem leaves_uploadImage {L : App → Prop} {R : Write → Block → Prop} {image : UIImage}
    {k : String → Block} (hk : ∀ url, (k url).Leaves L R) :
    (ImageUploader.uploadImage image k).Leaves L R := by
  rw [ImageUploader.uploadImage]
  split
  · trivial
  · refine fun e => ⟨fun (error : Option FIRError) => ?_, trivial⟩
    cases error with
    | some _ => trivial
    | none =>
        refine ⟨fun (url : Option String) => ?_, trivial⟩
        cases url with
        | none => trivial
        | some imageUrl => exact hk imageUrl

/-- Code that uploads nothing. -/
theorem leaves_of_edits {F : Part → Prop} {C : Collection → Prop} {c : Block} (hedits : Edits F c)
    (htouches : Touches C c) (hu : ¬F .currentUser) (hC : ∀ k, C k → k ≠ .posts) :
    c.Leaves t.SignedIn (SharesNext t) := by
  have hunder : c.Under (fun _ => True) (fun _ _ => True) fun
      | .issued w => w.ref.collection ≠ .posts
      | .changed f => ∀ app : App, (f app).currentUser = app.currentUser
      | _ => True :=
    under_of_edits ⟨fun _ _ => trivial, fun _ => trivial⟩ (fun _ => trivial) hedits htouches
      (fun w hw => ⟨hC _ hw, fun _ => trivial⟩) fun f hf app => hf app .currentUser hu
  refine hunder.leaves (fun f hf app happ ht => ?_) fun w n hw => ?_
  · rw [← happ ht]
    exact hf app
  · rintro b p data rfl rfl
    exact absurd rfl hw

theorem leaves_uploadWrites {caption : String} {image : UIImage} :
    (uploadWrites caption image user b UploadPostController.onUpload).Leaves (uploadBy b).SignedIn
      (SharesNext (uploadBy b)) := by
  refine ⟨leaves_uploadImage fun url e => ⟨?_, fun error => ?_, ?_⟩, trivial⟩
  · rintro b' p data hb hw v
    cases hb
    cases hw
    exact owes_updateUserFeedAfterPost
  · exact leaves_of_edits (F := fun p => p = .hud ∨ p = .feeds) (C := fun _ => False)
      (edits_onUpload (Or.inl rfl) (Or.inr rfl) error) (touches_onUpload error) (by simp)
      fun _ h => h.elim
  · refine leaves_of_edits (F := fun _ => False) (C := (· ≠ .posts)) ?_
      (touches_updateUserFeedAfterPost fun _ => by simp) id fun _ h => h
    exact under_updateUserFeedAfterPost plain_frame fun _ => sends_frame _

theorem leaves_action (a : Action) (app : App) :
    (a.block.start app).Leaves (Call.SignedIn ⟨app.currentUser, a.op app⟩)
      (SharesNext ⟨app.currentUser, a.op app⟩) := by
  by_cases hop : a.op app = .upload
  · have hs := a.starts app
    rw [hop] at hs
    cases hs with
    | @upload i caption =>
        have htap := uploadTap i caption app
        generalize (Action.tapDone i caption).op app = op at htap ⊢
        generalize (Action.tapDone i caption).block.start app = c at htap ⊢
        cases htap with
        | none => trivial
        | dropped => exact ⟨fun _ h => h, trivial⟩
        | upload hi huid =>
            rw [huid]
            exact ⟨fun _ h => h, leaves_uploadWrites⟩
  · have hedits : Edits a.edits (a.block.start app) :=
      Code.Under.start (fun _ _ _ _ => trivial) (edits_action fun _ h => h) trivial
    refine hedits.leaves (fun f hf app' happ hfeeds => ?_) fun w n _ => ?_
    · rw [← happ hfeeds]
      refine hf app' .currentUser fun hu => ?_
      rcases feeds_op hfeeds with ⟨i, caption, rfl⟩ | ⟨i, rfl⟩ | ⟨i, c, rfl⟩
      · rcases hu with hu | hu <;> cases hu
      · cases hu
      · rcases hu with hu | hu <;> cases hu
    · rintro b p data ht
      exact absurd (congrArg Call.op ht) hop

end

end DogVillage
