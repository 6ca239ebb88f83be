import DogVillage.Sound

/-!
# The app's code is sound

Service by service and screen by screen: run from sound memory, the code
issues sound writes only and leaves the memory sound.
-/

namespace DogVillage

open Async

variable {D : Type} {strict : Prop} {d : D} {t : Call} {log : Log D}

/-- Code that keeps the spec from this log on. -/
abbrev SoundCode (strict : Prop) (d : D) (t : Call) (c : Block) (log : Log D) : Prop :=
  (sound strict).Ok d t c log

/-- A completion that may be called at any later time. -/
abbrev SoundCompletion (strict : Prop) (d : D) (t : Call) (completion : Completion)
    (log : Log D) : Prop :=
  ∀ log', log <:+ log' → ∀ e, SoundCode strict d t (completion e) log'

theorem SoundCompletion.mono {completion : Completion} {log' : Log D} (h : log <:+ log')
    (hc : SoundCompletion strict d t completion log) :
    SoundCompletion strict d t completion log' :=
  fun _ h' => hc _ (h.trans h')

/-! ## Memory -/

theorem forall_mem_modify {α : Type} {P : α → Prop} {f : α → α} {l : List α} {i : Nat}
    (hl : ∀ x ∈ l, P x) (hf : ∀ x, P x → P (f x)) : ∀ x ∈ l.modify i f, P x := by
  intro x hx
  obtain ⟨j, hj, rfl⟩ := List.mem_iff_getElem.mp hx
  rw [List.getElem_modify]
  split
  · exact hf _ (hl _ (List.getElem_mem _))
  · exact hl _ (List.getElem_mem _)

theorem forall_mem_push {α : Type} {P : α → Prop} {l : List α} {a : α}
    (hl : ∀ x ∈ l, P x) (ha : P a) : ∀ x ∈ l ++ [a], P x := by
  intro x hx
  rcases List.mem_append.mp hx with hx | hx
  · exact hl x hx
  · rw [List.mem_singleton.mp hx]; exact ha

theorem getElem?_modify_some {α : Type} {f : α → α} {l : List α} {i j : Nat} {y : α}
    (h : (l.modify i f)[j]? = some y) : ∃ x, l[j]? = some x ∧ y = if i = j then f x else x := by
  rw [List.getElem?_modify] at h
  obtain ⟨x, hx, rfl⟩ := Option.map_eq_some_iff.mp h
  exact ⟨x, hx, rfl⟩

theorem getElem?_push_some {α : Type} {l : List α} {a y : α} {i : Nat}
    (h : (l ++ [a])[i]? = some y) : l[i]? = some y ∨ y = a := by
  rcases Nat.lt_or_ge i l.length with hlt | hge
  · exact Or.inl (by rwa [List.getElem?_append_left hlt] at h)
  · rw [List.getElem?_append_right hge] at h
    exact Or.inr (List.mem_singleton.mp (List.mem_of_getElem? h))

theorem sound_get {k : App → Block}
    (h : ∀ log', log <:+ log' → ∀ app, AppOk log' app → SoundCode strict d t (k app) log') :
    SoundCode strict d t (.get k) log :=
  fun log' hr app ha _ => h log' hr app ha

theorem sound_currentUid {k : Uid → Block}
    (h : ∀ log', log <:+ log' → ∀ uid, Member log' uid → SoundCode strict d t (k uid) log') :
    SoundCode strict d t (currentUid k) log :=
  sound_get fun log' hr app ha => by
    cases hu : app.currentUser with
    | none => trivial
    | some uid => exact h log' hr uid (ha.currentUser uid hu)

theorem sound_modify {f : App → App} {n : Block}
    (hf : ∀ log' : Log D, log <:+ log' → ∀ app, AppOk log' app → AppOk log' (f app))
    (hn : SoundCode strict d t n log) : SoundCode strict d t (.modify f n) log :=
  ⟨hf, fun _ _ => trivial, hn⟩

theorem sound_showLoader {show_ : Bool} : SoundCode strict d t (showLoader show_) log :=
  sound_modify (fun _ _ _ ha => { ha with }) trivial

theorem AppOk.signedIn {app : App} {uid : Uid} (ha : AppOk log app) (hu : Member log uid) :
    AppOk log { app with currentUser := some uid } :=
  { ha with currentUser := fun u h => by cases h; exact hu }

/-! ## Services -/

theorem sound_createUser {email password : String} {completion : Except FIRError Uid → Block}
    (ht : t.op = .register) (howes : ∀ uid, (newUser uid).Owes (completion (.ok uid)))
    (hok : ∀ log', log <:+ log' → ∀ uid, Member log' uid →
      SoundCode strict d t (completion (.ok uid)) log')
    (herr : ∀ log', log <:+ log' → ∀ e, SoundCode strict d t (completion (.error e)) log') :
    SoundCode strict d t (Auth.createUser email password completion) log := by
  refine ⟨⟨fun uid => ⟨fun _ _ => trivial, howes uid⟩, ht⟩,
    fun log' hr (result : Except FIRError Uid) ha => ?_, trivial⟩
  cases result with
  | error e => exact herr log' hr e
  | ok uid =>
      have hm : Member log' uid := ha uid rfl
      exact sound_modify (fun _ hr' _ h => h.signedIn (hm.mono hr')) (hok log' hr uid hm)

theorem sound_signIn {email password : String} {completion : Except FIRError Uid → Block}
    (hok : ∀ log', log <:+ log' → ∀ uid, Member log' uid →
      SoundCode strict d t (completion (.ok uid)) log')
    (herr : ∀ log', log <:+ log' → ∀ e, SoundCode strict d t (completion (.error e)) log') :
    SoundCode strict d t (Auth.signIn email password completion) log := by
  refine ⟨trivial, fun log' hr (result : Except FIRError Uid) ha => ?_, trivial⟩
  cases result with
  | error e => exact herr log' hr e
  | ok uid =>
      have hm : Member log' uid := ha uid rfl
      exact sound_modify (fun _ hr' _ h => h.signedIn (hm.mono hr')) (hok log' hr uid hm)

theorem sound_uploadImage {image : UIImage} {completion : String → Block}
    (hc : ∀ log', log <:+ log' → ∀ url, SoundCode strict d t (completion url) log') :
    SoundCode strict d t (ImageUploader.uploadImage image completion) log := by
  rw [ImageUploader.uploadImage]
  split
  · trivial
  · refine fun log₁ h₁ e _ => ⟨trivial, fun log₂ h₂ (error : Option FIRError) _ => ?_, trivial⟩
    cases error with
    | some _ => trivial
    | none =>
        refine ⟨trivial, fun log₃ h₃ (url : Option String) _ => ?_, trivial⟩
        cases url with
        | none => trivial
        | some imageUrl => exact hc log₃ ((h₁.trans h₂).trans h₃) imageUrl

/-- A write nobody waits for. -/
theorem sound_write {w : Write} {completion : Completion} (hw : WriteOk strict log t w)
    (hc : SoundCompletion strict d t completion log) :
    SoundCode strict d t (.write w completion .done) log :=
  ⟨hw, hc, fun _ _ _ => trivial⟩

theorem sound_done_completion : SoundCompletion strict d t (fun _ => .done) log :=
  fun _ _ _ => trivial

theorem sound_registerUser {credentials : AuthCredentials} {completion : Completion}
    (ht : t.op = .register) (hc : SoundCompletion strict d t completion log) :
    SoundCode strict d t (AuthService.registerUser credentials completion) log := by
  refine ⟨sound_uploadImage fun log₁ h₁ url => sound_createUser ht
    (fun uid => Or.inl (Or.inl ⟨_, rfl⟩)) (fun log₂ h₂ uid hm => ?_)
    fun log₂ h₂ e => hc log₂ (h₁.trans h₂) _, trivial⟩
  exact ⟨sound_write ⟨⟨rfl, hm⟩, ht⟩ (SoundCompletion.mono (h₁.trans h₂) hc), trivial⟩

theorem sound_upDateUser {username fullname : String} {image : UIImage}
    {completion : Completion} :
    SoundCode strict d t (AuthService.upDateUser username fullname image completion) log :=
  sound_currentUid fun _ _ _ _ => sound_uploadImage fun _ _ _ =>
    sound_write (by exact rfl) sound_done_completion

theorem sound_fetchUserWithUid {uid : Uid} {completion : User → Block}
    (hc : ∀ log', log <:+ log' → ∀ user, UserOk log' user →
      SoundCode strict d t (completion user) log') :
    SoundCode strict d t (UserService.fetchUserWithUid uid completion) log := by
  refine ⟨⟨trivial, fun log' hr (snapshot : Option (Option Dictionary)) ha => ?_, trivial⟩,
    trivial⟩
  rcases snapshot with _ | _ | data
  · trivial
  · trivial
  · exact ⟨hc log' hr _ (UserOk.init (ha data rfl)), trivial⟩

theorem sound_fetchUser {completion : User → Block}
    (hc : ∀ log', log <:+ log' → ∀ user, UserOk log' user →
      SoundCode strict d t (completion user) log') :
    SoundCode strict d t (UserService.fetchUser completion) log :=
  sound_currentUid fun _ h _ _ => sound_fetchUserWithUid fun _ h' => hc _ (h.trans h')

theorem sound_fetchUsers {completion : List User → Block}
    (hc : ∀ log', log <:+ log' → ∀ users, (∀ user ∈ users, UserOk log' user) →
      SoundCode strict d t (completion users) log') :
    SoundCode strict d t (UserService.fetchUsers completion) log := by
  refine ⟨⟨trivial, fun log' hr (snapshot : Option (List (DocId × Dictionary))) ha => ?_,
    trivial⟩, trivial⟩
  cases snapshot with
  | none => trivial
  | some documents =>
      refine ⟨hc log' hr _ fun user hu => ?_, trivial⟩
      obtain ⟨document, hd, rfl⟩ := List.mem_map.mp hu
      exact UserOk.init (ha documents rfl document hd).1

theorem sound_follow {uid : Uid} {completion : Completion} (hu : Member log uid)
    (hc : SoundCompletion strict d t completion log) :
    SoundCode strict d t (UserService.follow uid completion) log :=
  sound_currentUid fun _ h _ hm =>
    ⟨sound_write (hu.mono h) fun _ h' _ =>
      sound_write (hm.mono h') (SoundCompletion.mono (h.trans h') hc), trivial⟩

theorem sound_unfollow {uid : Uid} {completion : Completion}
    (hc : SoundCompletion strict d t completion log) :
    SoundCode strict d t (UserService.unfollow uid completion) log :=
  sound_currentUid fun _ h _ _ =>
    ⟨sound_write trivial fun _ h' _ =>
      sound_write trivial (SoundCompletion.mono (h.trans h') hc), trivial⟩

theorem sound_checkIfUserIsFollowed {uid : Uid} {completion : Bool → Block}
    (hc : ∀ log', log <:+ log' → ∀ b, SoundCode strict d t (completion b) log') :
    SoundCode strict d t (UserService.checkIfUserIsFollowed uid completion) log := by
  refine sound_currentUid fun _ h _ _ => ⟨⟨trivial, fun _ h' (snapshot : Option (Option Dictionary))
    _ => ?_, trivial⟩, trivial⟩
  cases snapshot with
  | none => trivial
  | some data => exact ⟨hc _ (h.trans h') _, trivial⟩

theorem sound_fetchUserState {uid : Uid} {completion : UserStats → Block}
    (hc : ∀ log', log <:+ log' → ∀ s, SoundCode strict d t (completion s) log') :
    SoundCode strict d t (UserService.fetchUserState uid completion) log :=
  ⟨⟨trivial, fun _ h₁ _ _ => ⟨trivial, fun _ h₂ _ _ => ⟨trivial, fun _ h₃ _ _ =>
    ⟨hc _ ((h₁.trans h₂).trans h₃) _, trivial⟩, trivial⟩, trivial⟩, trivial⟩, trivial⟩

theorem sound_updateUserFeedAfterPost {p : DocId} (hp : Posted log p) :
    SoundCode strict d t (PostService.updateUserFeedAfterPost p) log := by
  refine sound_currentUid fun _ h₁ _ _ => ⟨trivial, fun _ h₂
    (snapshot : Option (List (DocId × Dictionary))) _ => ?_, trivial⟩
  have hp := hp.mono (h₁.trans h₂)
  cases snapshot with
  | none => trivial
  | some documents =>
      exact Spec.Ok.andThen (Spec.Ok.forEach fun _ _ => sound_write hp sound_done_completion)
        (sound_write hp sound_done_completion)

theorem PostOk.newDocument {p : DocId} {uid : Uid} {caption imageUrl : String} {user : User}
    {now : Timestamp} (hm : Member log uid) (ho : Owner log p uid) :
    DocOk log ⟨.posts, p⟩ (PostService.postData caption imageUrl uid user now) :=
  ⟨⟨uid, ⟨rfl, hm⟩, ho⟩, 0, rfl, le_refl _, Int.natCast_nonneg _⟩

theorem sound_uploadWrites {caption : String} {image : UIImage} {user : User} {uid : Uid}
    {completion : Completion} (ht : t = ⟨some uid, .upload⟩) (hm : Member log uid)
    (hc : SoundCompletion strict d t completion log) :
    SoundCode strict d t (uploadWrites caption image user uid completion) log := by
  refine ⟨sound_uploadImage fun log₁ h₁ imageUrl log₂ h₂ e he => ⟨?_, ?_, ?_⟩, trivial⟩
  · subst ht
    exact ⟨PostOk.newDocument (hm.mono (h₁.trans h₂)) (he uid rfl), rfl⟩
  · exact hc.mono (h₁.trans h₂)
  · exact fun log₃ h₃ hp => sound_updateUserFeedAfterPost (hp _ _ rfl)

theorem PostOk.posts {docs : List (DocId × Dictionary)} {now : Timestamp}
    (h : ∀ x ∈ docs, FetchedOk log ⟨.posts, x.1⟩ x.2) :
    ∀ p ∈ PostService.posts docs now, PostOk log p := by
  intro p hp
  obtain ⟨document, hd, rfl⟩ := List.mem_map.mp hp
  exact PostOk.init (h document hd)

theorem sound_fetchPosts {completion : List Post → Block}
    (hc : ∀ log', log <:+ log' → ∀ posts, (∀ p ∈ posts, PostOk log' p) →
      SoundCode strict d t (completion posts) log') :
    SoundCode strict d t (PostService.fetchPosts completion) log := by
  refine ⟨⟨trivial, fun _ h₁ (snapshot : Option (List (DocId × Dictionary))) ha => ?_, trivial⟩,
    trivial⟩
  cases snapshot with
  | none => trivial
  | some documents =>
      exact fun _ h₂ e _ => ⟨hc _ (h₁.trans h₂) _ (PostOk.posts fun x hx =>
        (ha documents rfl x hx).1.mono h₂), trivial⟩

theorem mem_sortBySeconds {posts : List Post} {p : Post} :
    p ∈ PostService.sortBySeconds posts ↔ p ∈ posts := List.mem_insertionSort _

theorem sound_fetchPostsForUser {uid : Uid} {completion : List Post → Block}
    (hc : ∀ log', log <:+ log' → ∀ posts, (∀ p ∈ posts, PostOk log' p) →
      SoundCode strict d t (completion posts) log') :
    SoundCode strict d t (PostService.fetchPostsForUser uid completion) log := by
  refine ⟨⟨trivial, fun _ h₁ (snapshot : Option (List (DocId × Dictionary))) ha => ?_, trivial⟩,
    trivial⟩
  cases snapshot with
  | none => trivial
  | some documents =>
      refine fun _ h₂ e _ => ⟨hc _ (h₁.trans h₂) _ fun p hp => ?_, trivial⟩
      exact PostOk.posts (fun x hx => (ha documents rfl x hx).1.mono h₂) p
        (mem_sortBySeconds.mp hp)

theorem sound_fetchPost {p : DocId} {completion : Post → Block}
    (hc : ∀ log', log <:+ log' → ∀ post, PostOk log' post →
      SoundCode strict d t (completion post) log') :
    SoundCode strict d t (PostService.fetchPost p completion) log := by
  refine ⟨⟨trivial, fun _ h₁ (snapshot : Option (Option Dictionary)) ha => ?_, trivial⟩, trivial⟩
  rcases snapshot with _ | _ | data
  · trivial
  · trivial
  · exact fun _ h₂ e _ =>
      ⟨hc _ (h₁.trans h₂) _ (PostOk.init ((ha data rfl).mono h₂)), trivial⟩

/-- The count a like writes is in bounds, once the like itself is counted. -/
theorem sound_likeWrites {post : Post} {uid : Uid} {completion : Completion}
    (ht : t = ⟨some uid, .like post⟩) (hp : PostOk log post) (hn : Within log (post.likes + 1)) (hm : Member log uid)
    (hc : SoundCompletion strict d t completion log) :
    SoundCode strict d t (likeWrites post uid completion) log := by
  subst ht
  refine ⟨⟨⟨_, rfl, hn, post, rfl, Or.inl ⟨rfl, rfl⟩⟩, fun _ _ _ => trivial, fun _ h₁ _ => ?_⟩,
    trivial⟩
  refine sound_write ⟨hm.mono h₁, post, rfl, rfl⟩ fun _ h₂ _ => ?_
  exact sound_write (hp.posted.mono (h₁.trans h₂)) (hc.mono (h₁.trans h₂))

theorem sound_unlikeWrites {post : Post} {uid : Uid} {completion : Completion}
    (ht : t = ⟨some uid, .unlike post⟩) (hn : Within log (post.likes - 1)) (hc : SoundCompletion strict d t completion log) :
    SoundCode strict d t (unlikeWrites post uid completion) log := by
  subst ht
  refine ⟨⟨⟨_, rfl, hn, post, rfl, Or.inr ⟨rfl, rfl⟩⟩, fun _ _ _ => trivial, fun _ h₁ _ => ?_⟩,
    trivial⟩
  exact sound_write ⟨post, rfl, rfl⟩ fun _ h₂ _ => sound_write trivial (hc.mono (h₁.trans h₂))

theorem sound_checkIfUserLikedPost {post : Post} {completion : Bool → Block}
    (hc : ∀ log', log <:+ log' → ∀ b, SoundCode strict d t (completion b) log') :
    SoundCode strict d t (PostService.checkIfUserLikedPost post completion) log := by
  refine sound_currentUid fun _ h₁ _ _ => ⟨⟨trivial, fun _ h₂
    (snapshot : Option (Option Dictionary)) _ => ?_, trivial⟩, trivial⟩
  cases snapshot with
  | none => trivial
  | some data => exact hc _ (h₁.trans h₂) _

theorem sound_updateUserFeedAfterFollowing {user : User} {didFollow : Bool} :
    SoundCode strict d t (PostService.updateUserFeedAfterFollowing user didFollow) log := by
  refine sound_currentUid fun _ _ _ _ => ⟨⟨trivial, fun _ _
    (snapshot : Option (List (DocId × Dictionary))) ha => ?_, trivial⟩, trivial⟩
  cases snapshot with
  | none => trivial
  | some documents =>
      refine Spec.Ok.forEach fun document hd => ?_
      split
      · exact sound_write ((ha documents rfl document hd).1.2 rfl).posted sound_done_completion
      · exact sound_write trivial sound_done_completion

theorem sound_uploadComment {comment : String} {postID : DocId} {user : User}
    {completion : Completion} (hu : UserOk log user)
    (hc : SoundCompletion strict d t completion log) :
    SoundCode strict d t (CommentService.uploadComment comment postID user completion) log :=
  ⟨fun _ h _ _ => sound_write ⟨_, rfl, Member.mono h hu⟩ (hc.mono h), trivial⟩

theorem sound_uploadNotification {uid : Uid} {fromUser : User} {type : NotificationType}
    {post : Option Post} (hp : ∀ p, post = some p → Posted log p.postId) :
    SoundCode strict d t (NotificationService.uploadNotification uid fromUser type post) log := by
  refine sound_currentUid fun _ h₁ c hm => ?_
  split
  · refine ⟨fun _ h₂ e _ => sound_write ?_ sound_done_completion, trivial⟩
    have hm := hm.mono h₂
    cases post with
    | none => exact ⟨⟨c, rfl, hm⟩, fun v hv => by cases hv⟩
    | some p =>
        refine ⟨⟨c, rfl, hm⟩, fun v hv => ⟨p.postId, ?_, (hp p rfl).mono (h₁.trans h₂)⟩⟩
        exact (Option.some.inj hv).symm
  · trivial

theorem sound_uploadFollowNotification {uid : Uid} {fromUser : User} {type : NotificationType}
    (hu : UserOk log fromUser) :
    SoundCode strict d t (NotificationService.uploadFollowNotification uid fromUser type)
      log := by
  refine sound_currentUid fun _ h₁ c _ => ?_
  split
  · refine ⟨fun _ h₂ e _ => sound_write ?_ sound_done_completion, trivial⟩
    exact ⟨⟨_, rfl, Member.mono (h₁.trans h₂) hu⟩, fun v hv => by cases hv⟩
  · trivial

theorem sound_fetchNotification {completion : List Notification → Block}
    (hc : ∀ log', log <:+ log' → ∀ l, (∀ n ∈ l, NotificationOk log' n) →
      SoundCode strict d t (completion l) log') :
    SoundCode strict d t (NotificationService.fetchNotification completion) log := by
  refine sound_currentUid fun _ h₁ _ _ => ⟨⟨trivial, fun _ h₂
    (snapshot : Option (List (DocId × Dictionary))) ha => ?_, trivial⟩, trivial⟩
  cases snapshot with
  | none => trivial
  | some documents =>
      refine fun _ h₃ e _ => ⟨hc _ ((h₁.trans h₂).trans h₃) _ fun n hn => ?_, trivial⟩
      obtain ⟨document, hd, rfl⟩ := List.mem_map.mp hn
      exact NotificationOk.init ((ha documents rfl document hd).1.mono h₃)

/-- The posts `deletaUser` deletes are those of the account that runs it. -/
theorem sound_deleteWrites {uid : Uid} (ht : t = ⟨some uid, .delete⟩) :
    SoundCode strict d t (deleteWrites uid) log := by
  subst ht
  refine Spec.Ok.andThen ?_ ⟨rfl, fun _ _ error => ?_, fun _ _ _ => trivial⟩
  · refine sound_currentUid fun _ _ uid' _ => ⟨rfl, fun _ _ (error : Option FIRError) _ => ?_,
      trivial⟩
    cases error with
    | some e => trivial
    | none =>
        refine sound_modify (fun _ _ app ha => { ha with currentUser := fun u hu => ?_ }) trivial
        exact ha.currentUser u (Option.filter_eq_some_iff.mp hu).1
  · cases error with
    | some e => trivial
    | none =>
        refine ⟨⟨_, rfl⟩, fun _ _ (snapshot : Option (List (DocId × Dictionary))) ha => ?_, trivial⟩
        cases snapshot with
        | none => trivial
        | some documents =>
            refine Spec.Ok.forEach fun document hd => sound_write ⟨Or.inr rfl, fun _ =>
              ⟨uid, rfl, ?_⟩⟩ sound_done_completion
            obtain ⟨⟨⟨⟨u, ⟨hl, -⟩, ho⟩, -⟩, -⟩, hsel⟩ := ha documents rfl document hd
            have hu : uid = u := by
              simp only [Query.selects, hl, Bool.and_true, decide_eq_true_eq, Option.some.injEq,
                Value.string.injEq] at hsel
              exact hsel.symm
            rw [hu]
            exact ho

end DogVillage
