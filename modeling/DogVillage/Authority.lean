import DogVillage.Fanouts
import DogVillage.Formats
import DogVillage.References

/-!
# Who may change a document

The store takes whatever a client sends: that an account's likes, follows
and user document are changed by its own calls only, and a post or a
notification by calls about it, is kept by the code of the calls alone.
`MayWrite` says of each call what it may write; it holds of every write
outstanding in every world reached, whatever fails and whoever signs in
meanwhile. So whichever document changes, a call entitled to it did it.
-/

namespace DogVillage

open Async

section

variable {D : Type}

/-! ## The calls entitled to a document -/

/-- The call by which `v` likes `p`, or no longer does. -/
def Call.Likes (t : Call) (v : Uid) (p : DocId) : Prop :=
  ∃ post : Post, post.postId = p ∧ (t = ⟨some v, .like post⟩ ∨ t = ⟨some v, .unlike post⟩)

/-- A registration was given the account `u`. -/
def SignedUp (log : Log D) (t : Call) (u : Uid) : Prop :=
  t.op = .register ∧ ∃ x ∈ log, x.tag = t ∧ Registered u x

/-- The call's account is the one the post belongs to. -/
def Call.Owns (log : Log D) (t : Call) (p : DocId) : Prop := ∃ u, t.actor = some u ∧ Owner log p u

/-- `u` is told of the call: it follows `u`, or it likes or comments on a post
of `u`. -/
def Call.News (log : Log D) (t : Call) (u : Uid) : Prop :=
  t.op = .follow u ∨ (∃ p, t.op = .comment p ∧ Owner log p u) ∨
    ∃ post : Post, t.op = .like post ∧ post.ownerUid = u ∧ Owner log post.postId u

/-- The call uploads the post, or follows its owner or no longer does. -/
def Call.Shares (log : Log D) (t : Call) (p : DocId) : Prop :=
  ∃ b, Owner log p b ∧ (t = uploadBy b ∨ ∃ v gone, t = edgeBy gone v b)

/-- The calls that may change a document. -/
def Entitled (log : Log D) (t : Call) (r : Ref Collection) : Prop :=
  match r.collection with
  | .users => SignedUp log t r.id ∨ t.actor = some r.id
  | .posts => (t.op = .upload ∨ t.op = .delete ∧ Stored log r.id) ∧ t.Owns log r.id ∨
      (∃ v, t.Likes v r.id) ∨ t.op = .remove r.id ∧ Stored log r.id
  | .userFollowing v => ∃ gone, t = edgeBy gone v r.id
  | .userFollowers b => ∃ gone, t = edgeBy gone r.id b
  | .userFeed _ => t.Shares log r.id
  | .userLikes v => t.Likes v r.id
  | .postLikes p => t.Likes r.id p
  | .comments p => t.op = .comment p
  | .userNotifications u => t.News log u

/-- The documents of the collection are written once. -/
def Collection.lasting : Collection → Bool
  | .comments _ | .userNotifications _ => true
  | _ => false

/-- What a call may write. -/
structure MayWrite (log : Log D) (t : Call) (w : Write) : Prop where
  entitled : Entitled log t w.ref
  lasting : w.ref.collection.lasting = true → ∃ data, w = .setData w.ref data

section

variable {log log' : Log D} (h : log <:+ log') {t : Call}

include h

theorem SignedUp.mono {u : Uid} (hu : SignedUp log t u) : SignedUp log' t u := by
  obtain ⟨ht, x, hx, hu⟩ := hu
  exact ⟨ht, x, h.subset hx, hu⟩

theorem Call.Owns.mono {p : DocId} (ho : t.Owns log p) : t.Owns log' p :=
  Exists.imp (fun _ ho => ⟨ho.1, ho.2.mono h⟩) ho

theorem Call.News.mono {u : Uid} (hn : t.News log u) : t.News log' u :=
  Or.imp_right (Or.imp (Exists.imp fun _ hp => ⟨hp.1, hp.2.mono h⟩)
    (Exists.imp fun _ hp => ⟨hp.1, hp.2.1, hp.2.2.mono h⟩)) hn

theorem Call.Shares.mono {p : DocId} (hs : t.Shares log p) : t.Shares log' p :=
  Exists.imp (fun _ hb => ⟨hb.1.mono h, hb.2⟩) hs

theorem Entitled.mono {r : Ref Collection} (hr : Entitled log t r) : Entitled log' t r := by
  obtain ⟨c, i⟩ := r
  cases c with
  | users => exact Or.imp_left (SignedUp.mono h) hr
  | posts =>
      refine Or.imp ?_ (Or.imp_right (And.imp_right (Stored.mono h))) hr
      exact And.imp (Or.imp_right (And.imp_right (Stored.mono h))) (Call.Owns.mono h)
  | userFeed v => exact Call.Shares.mono h hr
  | userNotifications u => exact Call.News.mono h hr
  | _ => exact hr

theorem MayWrite.mono {w : Write} (hw : MayWrite log t w) : MayWrite log' t w :=
  ⟨hw.entitled.mono h, hw.lasting⟩

end

/-- An account is registered by the call that is told so; a query for the
posts of `b` is answered with stored posts of `b`. -/
def AuthorityAnswer (log : Log D) (t : Call) : (q : Ask) → q.Ans → Prop
  | .createUser _ _, a => ∀ u, a = .ok u → ∃ x ∈ log, x.tag = t ∧ Registered u x
  | .getDocuments q, a => ∀ documents, a = some documents → ∀ b, q = postsQuery b →
      ∀ x ∈ documents, Owner log x.1 b ∧ Stored log x.1
  | _, _ => True

theorem grown_refl (_ : D) (_ : Call) (log : Log D) : log <:+ log := List.suffix_rfl

theorem grown_trans (_ : D) (_ : Call) (log₁ log₂ log₃ : Log D) (h : log₁ <:+ log₂)
    (h' : log₂ <:+ log₃) : log₁ <:+ log₃ := h.trans h'

/-- Every call writes what it may. -/
def authority : Spec village D (Log D) where
  view _ log := log
  rely _ _ log log' := log <:+ log'
  loc _ _ _ := True
  sees _ _ _ := True
  write log _ t w _ := MayWrite log t w
  ask _ _ _ _ _ := True
  listen _ _ _ _ _ := True
  answer log _ t q a := AuthorityAnswer log t q a
  env log _ t e := ∀ u, t.actor = some u → Owner log e.uuid u
  rely_refl := grown_refl
  rely_trans := grown_trans
  loc_stable _ _ _ _ _ _ _ := trivial
  write_stable _ _ _ _ _ _ h hw := hw.mono h
  ask_stable _ _ _ _ _ _ _ _ := trivial
  listen_stable _ _ _ _ _ _ _ _ := trivial

abbrev AuthorityCode (d : D) (t : Call) (b : Block) (log : Log D) : Prop := authority.Ok d t b log

/-! ## What the calls write -/

section

variable {d : D} {t : Call} {log : Log D} {v b : Uid} {p : DocId}

theorem authority_of_writes {c : Block} (h : c.Writes (MayWrite log t)) : AuthorityCode d t c log :=
  Spec.Ok.of_writes (fun _ hr _ _ hw => hw.mono hr) (fun _ _ _ => trivial) (fun _ _ _ => trivial)
    (fun _ _ => trivial) (fun _ => trivial) List.suffix_rfl h

theorem authority_of_under {c : Block}
    (h : c.Under (fun _ => True) (fun _ _ => True) (Issuing (MayWrite log t))) :
    AuthorityCode d t c log :=
  authority_of_writes (h.writes fun _ hw => hw)

theorem mayWrite_notice (h : t.News log v) (i : DocId) (data : Dictionary) :
    MayWrite log t (.setData ⟨.userNotifications v, i⟩ data) := ⟨h, fun _ => ⟨data, rfl⟩⟩

/-- A write to a collection whose documents come and go. -/
theorem mayWrite_of_entitled {w : Write} (h : Entitled log t w.ref)
    (hl : w.ref.collection.lasting = false) : MayWrite log t w :=
  ⟨h, fun hl' => by rw [hl] at hl'; cases hl'⟩

/-- Code of a call nobody is told of. -/
theorem authority_of_touches {C : Collection → Prop} {c : Block} (h : Touches C c)
    (hC : ∀ r : Ref Collection, C r.collection → Entitled log t r ∧ r.collection.lasting = false) :
    AuthorityCode d t c log :=
  authority_of_writes (h.mono fun (w : Write) hw =>
    mayWrite_of_entitled (hC w.ref hw).1 (hC w.ref hw).2)

theorem writes_uploadNotification {user : User} {type : NotificationType} {post : Option Post}
    (h : t.News log v) :
    (NotificationService.uploadNotification v user type post).Writes (MayWrite log t) :=
  (under_uploadNotification (P := Issuing (MayWrite log t)) (L := fun _ => True)
    (A := fun _ _ => True) plain_issuing fun _ _ _ _ _ _ =>
      sends_issuing (mayWrite_notice h _ _)).writes fun _ hw => hw

theorem authority_currentUid {k : Uid → Block}
    (hk : ∀ log', log <:+ log' → ∀ u, AuthorityCode d t (k u) log') :
    AuthorityCode d t (currentUid k) log := by
  intro log' h app _ _
  cases hu : app.currentUser with
  | none => simp only [hu]; trivial
  | some u => simp only [hu]; exact hk log' h u

/-! ### Likes -/

/-- A document of a like may be written by the like. -/
theorem mayWrite_like {w : Write} (ht : t.Likes v p) (hw : w.ref = ⟨.posts, p⟩ ∨
    w.ref = ⟨.postLikes p, v⟩ ∨ w.ref = ⟨.userLikes v, p⟩) : MayWrite log t w := by
  rcases hw with h | h | h <;> refine mayWrite_of_entitled ?_ (by rw [h]; rfl) <;> rw [h]
  · exact Or.inr (Or.inl ⟨v, ht⟩)
  · exact ht
  · exact ht

/-- The count of a post is written, then both records of the like. -/
theorem authority_likeDocs {count first second : Write} {completion : Completion}
    (ht : t.Likes v p) (hcount : count.ref = ⟨.posts, p⟩) (hfirst : first.ref = ⟨.postLikes p, v⟩)
    (hsecond : second.ref = ⟨.userLikes v, p⟩)
    (hc : ∀ e, (completion e).Writes (MayWrite log t)) :
    AuthorityCode d t (.global (.write count (fun _ => .done)
      (.write first (fun _ => .write second completion .done) .done)) .done) log :=
  authority_of_writes ⟨⟨mayWrite_like ht (Or.inl hcount), fun _ => trivial,
    mayWrite_like ht (Or.inr (Or.inl hfirst)),
    fun _ => ⟨mayWrite_like ht (Or.inr (Or.inr hsecond)), hc, trivial⟩, trivial⟩, trivial⟩

theorem authority_like {post : Post} {completion : Completion} (ht : t.Likes v post.postId)
    (hc : ∀ e, (completion e).Writes (MayWrite log t)) :
    AuthorityCode d t (likeWrites post v completion) log :=
  authority_likeDocs ht rfl rfl rfl hc

theorem authority_unlike {post : Post} {completion : Completion} (ht : t.Likes v post.postId)
    (hc : ∀ e, (completion e).Writes (MayWrite log t)) :
    AuthorityCode d t (unlikeWrites post v completion) log :=
  authority_likeDocs ht rfl rfl rfl hc

theorem writes_onLike {i c : Nat} {post : Post} {user : User} (h : t.News log post.ownerUid)
    (e : Option FIRError) :
    (FeedController.onLike i c post user e).Writes (MayWrite log t) := by
  cases e with
  | some _ => trivial
  | none => exact Code.Writes.andThen (writes_uploadNotification h) (by trivial)

/-! ### Follows -/

/-- Both documents of a follow may be written by the call, then what its
completion does. -/
theorem authority_edgeWrites (gone : Bool) {completion : Completion}
    (hc : ∀ log', log <:+ log' → ∀ e, AuthorityCode d (edgeBy gone v b) (completion e) log') :
    AuthorityCode d (edgeBy gone v b) (edgeWrites gone v b completion) log := by
  have hmay : ∀ {log : Log D} {w : Write}, w.ref = ⟨.userFollowing v, b⟩ ∨
      w.ref = ⟨.userFollowers b, v⟩ → MayWrite log (edgeBy gone v b) w := by
    rintro log w (h | h) <;> refine mayWrite_of_entitled ?_ (by rw [h]; rfl) <;> rw [h] <;>
      exact ⟨gone, rfl⟩
  cases gone with
  | true =>
      exact ⟨⟨hmay (Or.inl rfl), fun _ h _ => ⟨hmay (Or.inr rfl), fun _ h' => hc _ (h.trans h'),
        fun _ _ _ => trivial⟩, fun _ _ _ => trivial⟩, trivial⟩
  | false =>
      exact ⟨⟨hmay (Or.inl rfl), fun _ h _ => ⟨hmay (Or.inr rfl), fun _ h' => hc _ (h.trans h'),
        fun _ _ _ => trivial⟩, fun _ _ _ => trivial⟩, trivial⟩

theorem authority_updateUserFeedAfterFollowing (gone : Bool) (user : User) :
    AuthorityCode d (edgeBy gone v user.uid)
      (PostService.updateUserFeedAfterFollowing user (!gone)) log := by
  refine authority_currentUid fun _ _ uid => ⟨⟨trivial, fun log₂ _
    (a : Option (List (DocId × Dictionary))) ha => ?_, trivial⟩, trivial⟩
  cases a with
  | none => trivial
  | some documents =>
      refine Spec.Ok.forEach fun x hx => authority_of_writes ?_
      have hshares : (edgeBy gone v user.uid).Shares log₂ x.1 :=
        ⟨user.uid, (ha documents rfl user.uid rfl x hx).1, Or.inr ⟨v, gone, rfl⟩⟩
      cases gone <;> exact ⟨mayWrite_of_entitled hshares rfl, fun _ => trivial, trivial⟩

theorem authority_onEdge {gone : Bool} {i : Nat} {user : User} (currentUser : User)
    (e : Option FIRError) :
    AuthorityCode d (edgeBy gone v user.uid) (onEdge i gone user currentUser e) log := by
  have hmodify : ∀ {f : ProfileController → ProfileController} {n : Block},
      AuthorityCode d (edgeBy gone v user.uid) n log →
      AuthorityCode d (edgeBy gone v user.uid) (ProfileController.modify i f >> n) log := fun hn =>
    ⟨fun _ _ _ _ => trivial, fun _ _ => trivial, hn⟩
  have hfeed : AuthorityCode d (edgeBy gone v user.uid)
      (PostService.updateUserFeedAfterFollowing user (!gone)) log :=
    authority_updateUserFeedAfterFollowing gone user
  cases gone with
  | true => exact hmodify hfeed
  | false =>
      refine hmodify (Spec.Ok.andThen (authority_of_under ?_) hfeed)
      exact under_uploadFollowNotification plain_issuing fun e =>
        sends_issuing (mayWrite_notice (Or.inl rfl) _ _)

/-! ### Uploads, registrations and deletions -/

theorem authority_uploadImage {image : UIImage} {k : String → Block}
    (hk : ∀ log', log <:+ log' → ∀ url, AuthorityCode d t (k url) log') :
    AuthorityCode d t (ImageUploader.uploadImage image k) log := by
  rw [ImageUploader.uploadImage]
  split
  · trivial
  · refine fun _ h₁ e _ => ⟨trivial, fun _ h₂ (error : Option FIRError) _ => ?_, trivial⟩
    cases error with
    | some _ => trivial
    | none =>
        refine ⟨trivial, fun _ h₃ (url : Option String) _ => ?_, trivial⟩
        cases url with
        | none => trivial
        | some imageUrl => exact hk _ ((h₁.trans h₂).trans h₃) imageUrl

theorem authority_uploadWrites {caption : String} {image : UIImage} {user : User} :
    AuthorityCode d (uploadBy b)
      (uploadWrites caption image user b UploadPostController.onUpload) log := by
  refine ⟨authority_uploadImage fun _ _ url log₂ h₂ e he => ?_, trivial⟩
  have howner : Owner log₂ e.uuid b := he b rfl
  refine ⟨mayWrite_of_entitled (Or.inl ⟨Or.inl rfl, b, rfl, howner⟩) rfl, fun _ _ error => ?_,
    fun log₃ h₃ _ => ?_⟩
  · exact authority_of_touches (C := fun _ => False) (touches_onUpload error) fun _ h => h.elim
  · refine authority_of_under (under_updateUserFeedAfterPost plain_issuing fun v => ?_)
    exact sends_issuing (mayWrite_of_entitled ⟨b, howner.mono h₃, Or.inl rfl⟩ rfl)

theorem authority_registerUser {credentials : AuthCredentials} (ht : t.op = .register) :
    AuthorityCode d t
      (AuthService.registerUser credentials RegisterationController.onRegister) log := by
  refine ⟨authority_uploadImage fun _ _ url => ⟨trivial, fun log₂ h₂
    (result : Except FIRError Uid) ha => ?_, trivial⟩, trivial⟩
  cases result with
  | error e =>
      exact authority_of_writes (by trivial)
  | ok uid =>
      have hsigned : SignedUp log₂ t uid := ⟨ht, ha uid rfl⟩
      refine ⟨fun _ _ _ _ => trivial, fun _ _ => trivial,
        ⟨mayWrite_of_entitled (Or.inl hsigned) rfl, fun _ _ error => ?_, fun _ _ _ => trivial⟩,
        trivial⟩
      refine authority_of_touches (C := fun _ => False) ?_ fun _ h => h.elim
      cases error with
      | some _ => trivial
      | none => exact Touches.andThen (b := showLoader true) trivial touches_tab_fetchUser

theorem authority_editProfile {username fullname : String} {image : UIImage} {app : App}
    (ht : t.actor = app.currentUser) :
    AuthorityCode d t ((Action.editProfile username fullname image).block.start app) log := by
  refine authority_of_writes ?_
  simp only [Action.block, ResetInfomation.handleSignUp, showLoader, Code.seq_eq, Code.andThen,
    Code.start, AuthService.upDateUser, currentUid]
  cases hu : app.currentUser with
  | none => trivial
  | some uid =>
      have hmay : ∀ data, MayWrite log t (.updateData ⟨.users, uid⟩ data) := fun data =>
        mayWrite_of_entitled (Or.inr (ht.trans hu)) rfl
      refine Code.Writes.start (Code.Writes.andThen (by trivial) ?_)
      refine Code.Under.writes (P := Issuing (MayWrite log t)) (fun _ hw => hw)
        (under_uploadImage plain_issuing fun url => ?_)
      exact under_write (sends_issuing (hmay _)) (fun _ => trivial) trivial

theorem authority_deleteWrites (ht : t = ⟨some v, .delete⟩) :
    AuthorityCode d t (deleteWrites v) log := by
  subst ht
  refine Spec.Ok.andThen ?_ ⟨mayWrite_of_entitled (Or.inr rfl) rfl, fun log₁ h₁ error => ?_,
    fun _ _ _ => trivial⟩
  · exact authority_of_touches (C := fun _ => False)
      (touches_currentUid fun _ => ⟨fun (error : Option FIRError) => by cases error <;> trivial,
        trivial⟩) fun _ h => h.elim
  · cases error with
    | some _ => trivial
    | none =>
        refine ⟨trivial, fun log₂ h₂ (a : Option (List (DocId × Dictionary))) ha => ?_, trivial⟩
        cases a with
        | none => trivial
        | some documents =>
            refine Spec.Ok.forEach fun x hx => authority_of_writes ⟨?_, fun _ => trivial, trivial⟩
            obtain ⟨howner, hstored⟩ := ha documents rfl v rfl x hx
            exact mayWrite_of_entitled (Or.inl ⟨Or.inr ⟨rfl, hstored⟩, v, rfl, howner⟩) rfl

/-! ### Every action -/

theorem authority_modify {f : App → App} {c : Block} (h : AuthorityCode d t c log) :
    AuthorityCode d t (.modify f c) log := ⟨fun _ _ _ _ => trivial, fun _ _ => trivial, h⟩

theorem authority_action (a : Action) {app : App} (h : AppOk log app) :
    AuthorityCode d ⟨app.currentUser, a.op app⟩ (a.block.start app) log := by
  cases a with
  | tapLike i c =>
      have htap := likeTap i c app
      generalize (Action.tapLike i c).op app = op at htap ⊢
      generalize (Action.tapLike i c).block.start app = b at htap ⊢
      cases htap with
      | none => trivial
      | dropped => exact authority_modify trivial
      | @like post user uid hshown _ huid _ =>
          have hpost := h.shownPost hshown
          rw [huid]
          refine authority_modify (authority_like ⟨post, rfl, Or.inl rfl⟩ (writes_onLike ?_))
          exact Or.inr (Or.inr ⟨post, rfl, rfl, hpost.owner⟩)
      | @unlike post user uid hshown _ huid _ _ =>
          rw [huid]
          refine authority_modify (authority_unlike ⟨post, rfl, Or.inr rfl⟩ fun e => ?_)
          cases e <;> trivial
  | tapActionButton i =>
      have htap := profileTap i app
      generalize (Action.tapActionButton i).op app = op at htap ⊢
      generalize (Action.tapActionButton i).block.start app = c at htap ⊢
      cases htap with
      | none => trivial
      | @follow profile user currentUser uid _ _ _ huid _ _ =>
          rw [huid]
          exact authority_edgeWrites false fun _ _ => authority_onEdge currentUser
      | @unfollow profile user currentUser uid _ _ _ huid _ _ =>
          rw [huid]
          exact authority_edgeWrites true fun _ _ => authority_onEdge user
  | tapFollow i c =>
      have htap := notificationTap i c app
      generalize (Action.tapFollow i c).op app = op at htap ⊢
      generalize (Action.tapFollow i c).block.start app = b at htap ⊢
      cases htap with
      | none => trivial
      | dropped => exact authority_modify trivial
      | follow _ huid =>
          rw [huid]
          exact authority_modify (authority_edgeWrites false fun _ _ _ =>
            authority_of_writes trivial)
      | unfollow _ huid =>
          rw [huid]
          exact authority_modify (authority_edgeWrites true fun _ _ _ =>
            authority_of_writes trivial)
  | sendComment i comment =>
      have htap := commentTap i comment app
      generalize (Action.sendComment i comment).op app = op at htap ⊢
      generalize (Action.sendComment i comment).block.start app = b at htap ⊢
      cases htap with
      | none => trivial
      | @send post user hi _ =>
          have hpost : PostOk log post := h.comments _ (List.mem_of_getElem? hi)
          refine authority_modify (authority_of_writes ⟨fun e => ⟨⟨rfl, fun _ => ⟨_, rfl⟩⟩,
            fun _ => Code.Writes.andThen (writes_uploadNotification ?_) (by trivial), trivial⟩,
            trivial⟩)
          exact Or.inr (Or.inl ⟨post.postId, rfl, hpost.owner⟩)
  | tapDone i caption =>
      have htap := uploadTap i caption app
      generalize (Action.tapDone i caption).op app = op at htap ⊢
      generalize (Action.tapDone i caption).block.start app = c at htap ⊢
      cases htap with
      | none => trivial
      | dropped => exact authority_modify trivial
      | upload _ huid =>
          rw [huid]
          exact authority_modify authority_uploadWrites
  | answerAlert k yes =>
      have htap := removeTap k yes app
      generalize (Action.answerAlert k yes).op app = op at htap ⊢
      generalize (Action.answerAlert k yes).block.start app = c at htap ⊢
      cases htap with
      | none => trivial
      | no => exact authority_modify trivial
      | kept => exact authority_of_writes trivial
      | removed hk _ _ =>
          have hstored := (h.alerts _ (List.mem_of_getElem? hk)).1.stored
          exact authority_of_writes
            ⟨mayWrite_of_entitled (Or.inr (Or.inr ⟨rfl, hstored⟩)) rfl, fun _ => trivial, trivial⟩
  | signUp email password fullname username image =>
      exact Spec.Ok.start (authority_modify (authority_registerUser rfl)) trivial trivial
  | editProfile username fullname image => exact authority_editProfile rfl
  | deleteAccount =>
      have htap := deleteTap app
      generalize Action.deleteAccount.block.start app = c at htap ⊢
      cases htap with
      | none => exact authority_of_writes trivial
      | delete huid =>
          exact authority_modify ⟨authority_deleteWrites (by rw [huid]; rfl),
            authority_modify trivial⟩
  | _ => exact authority_of_touches (touches_action _ app) fun _ h => h.elim

end

end

/-! ## Runs -/

variable {D : Type} [DecidableEq D] {w w' : World village D} {e : Event village D}
  {ok : World village D → Event village D → Prop}

theorem Sound.authorityAnswer (h : Sound False w) (hs : Stepped w e w') {d : D} {t : Call} {q : Ask}
    {a : q.Ans} {srv : Server} (hans : e.Answers w d t q a srv) : AuthorityAnswer w'.log t q a := by
  cases q with
  | createUser email password =>
      rintro u rfl
      exact ⟨_, (hans.step hs).1 ▸ List.mem_cons_self, rfl, email, password, rfl⟩
  | getDocuments q =>
      rintro documents ha b rfl x hx
      obtain ⟨c, hv⟩ := hans.serve
      have hmem : x ∈ w.server.docs.select (postsQuery b) := by
        cases c <;> cases hv <;> cases ha
        exact hx
      obtain ⟨hget, hsel⟩ := Documents.mem_select.mp hmem
      obtain ⟨⟨⟨u, ⟨hl, -⟩, ho⟩, -⟩, hstored⟩ := h.docs _ _ hget
      obtain rfl : u = b := by simpa [Query.selects, hl] using hsel
      exact ⟨ho.mono hs.log, (hstored rfl).mono hs.log⟩
  | _ => trivial

theorem authority_step (hsound : Sound False w) (h : authority.Inv w) (hs : Stepped w e w') :
    authority.Inv w' := by
  refine h.step hs (fun _ _ _ => hs.log) (fun _ _ _ => trivial) (fun d a he => ?_)
    (fun _ _ _ => trivial) (fun d t v hv u hu => ?_) (fun _ _ _ _ => trivial)
    fun _ _ _ _ _ hans => hsound.authorityAnswer hs hans
  · exact authority_action a ((hsound.code.loc d).mono hs.log)
  · exact ⟨_, (hv.step hs).1 ▸ List.mem_cons_self, v, rfl, rfl, hu⟩

theorem authority_of_run (hrun : Run ok emptyWorld w) : Sound False w ∧ authority.Inv w := by
  refine hrun.inv (fun w => Sound False w ∧ authority.Inv w) ⟨sound_emptyWorld, ?_⟩
    fun w e w' h _ hs => ⟨h.1.step hs fun hf => hf.elim, authority_step h.1 h.2 hs⟩
  exact
    { loc := fun _ => trivial
      held := fun _ => by constructor <;> simp [emptyWorld, Device.jobs] }

theorem mayWrite_of_sent (hrun : Run ok emptyWorld w) {d : D} {m : Sent village}
    (hm : m ∈ (w.devices d).writes) : MayWrite w.log m.tag m.write :=
  (((authority_of_run hrun).2.held d).writes m hm).1

/-- Whichever document a step changes, an outstanding call entitled to it
changes it, whatever fails and however the calls interleave. -/
theorem changed_by_entitled (hrun : Run ok emptyWorld w) (hstep : step w e = some w')
    {r : Ref Collection} (hne : w'.server.docs.get r ≠ w.server.docs.get r) :
    ∃ d t wr, w.Active d t ∧ w'.log = ⟨d, t, .wrote wr none⟩ :: w.log ∧ wr.ref = r ∧
      Entitled w.log t r := by
  cases docsStep (stepped_of_step hstep) with
  | same hdocs => exact absurd (by rw [hdocs]) hne
  | @wrote d m ms _ hw hlog hget =>
      have hm : m ∈ (w.devices d).writes := by rw [hw]; exact List.mem_cons_self
      have hr : r = m.write.ref := by
        by_contra hr
        exact hne (by rw [hget, if_neg hr])
      subst hr
      exact ⟨d, m.tag, m.write, active_of_sent hm, hlog, rfl, (mayWrite_of_sent hrun hm).entitled⟩

/-- Bob has found Alice and tapped on follow; the first write is under way. -/
def followTapped : World village Unit :=
  emptyWorld
    |> smooth.perform () (.signUp "alice@dog.kr" "secret" "Alice" "alice" ⟨some []⟩) 100
    |> smooth.perform () .logout 100
    |> smooth.perform () (.signUp "bob@dog.kr" "secret" "Bob" "bob" ⟨some []⟩) 100
    |> smooth.perform () (.searchDidLoad 1) 100
    |> smooth.perform () (.searchSelectUser 1 0) 100
    |> smooth.perform () (.profileHeader 2) 100
    |> smooth.perform () (.tapActionButton 2) 3

theorem followTapped_reached : Run (fun _ _ => True) emptyWorld followTapped := by
  unfold followTapped
  iterate 7 refine Policy.run_perform (fun _ _ _ => trivial) trivial ?_
  exact .refl

theorem changed_by_entitled_followTapped :
    ∃ w', step followTapped (.commit () none) = some w' ∧ ∃ d t wr, followTapped.Active d t ∧
      w'.log = ⟨d, t, .wrote wr none⟩ :: followTapped.log ∧ wr.ref = ⟨.userFollowing "n3", "n1"⟩ ∧
        Entitled followTapped.log t ⟨.userFollowing "n3", "n1"⟩ := by
  have hnone : (followTapped.server.docs.get ⟨.userFollowing "n3", "n1"⟩).isSome = false := by decide
  have hsome : (step followTapped (.commit () none)).any fun w' =>
      (w'.server.docs.get ⟨.userFollowing "n3", "n1"⟩).isSome := by decide
  obtain ⟨w', hstep, hw'⟩ := (Option.any_eq_true _ _).mp hsome
  refine ⟨w', hstep, changed_by_entitled followTapped_reached hstep fun h => ?_⟩
  rw [h, hnone] at hw'
  cases hw'

end DogVillage
