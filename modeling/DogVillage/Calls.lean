import DogVillage.Async.Reach
import DogVillage.Village

/-!
# What the services come to

Every service is bounded (`Code.Under`) once its completion, its writes and
its changes of the memory are; `P` only has to leave alone what is answered
and handed out.
-/

namespace DogVillage

open Async

/-- `P` is about writes and changes of the memory. -/
structure Plain (P : Obs sig → Prop) : Prop where
  answered : ∀ q a, P (.answered q a)
  supplied : ∀ v, P (.supplied v)

/-- The write may be issued, and may be answered. -/
structure Sends (P : Obs sig → Prop) (w : Write) : Prop where
  issued : P (.issued w)
  wrote : ∀ r, P (.wrote w r)

section

variable {L : App → Prop} {A : (q : Ask) → q.Ans → Prop} {P : Obs sig → Prop} (hP : Plain P)

/-! ## Statements -/

theorem under_write {w : Write} {handler : Completion} {n : Block} (hw : Sends P w)
    (hh : ∀ e, (handler e).Under L A P) (hn : n.Under L A P) :
    (Code.write w handler n : Block).Under L A P := ⟨hw.issued, fun r => ⟨hw.wrote r, hh r⟩, hn⟩

include hP in
theorem under_ask {q : Ask} {handler : q.Ans → Block} {n : Block}
    (hh : ∀ a, A q a → (handler a).Under L A P) (hn : n.Under L A P) :
    (Code.ask q handler n : Block).Under L A P := ⟨fun a ha => ⟨hP.answered q a, hh a ha⟩, hn⟩

theorem under_currentUid {k : Uid → Block}
    (h : ∀ app uid, L app → app.currentUser = some uid → (k uid).Under L A P) :
    (currentUid k).Under L A P := by
  intro app hl
  cases hu : app.currentUser with
  | none => simp only [hu]; trivial
  | some uid => simp only [hu]; exact h app uid hl hu

theorem under_tabUser {k : User → Block}
    (h : ∀ app user, L app → app.user = some user → (k user).Under L A P) :
    (FeedController.tabUser k).Under L A P := by
  intro app hl
  cases hu : app.user with
  | none => simp only [hu]; trivial
  | some user => simp only [hu]; exact h app user hl hu

theorem under_showLoader {b : Bool} (h : P (.changed ({ · with hud := b }))) :
    (showLoader b).Under L A P := ⟨h, trivial⟩

/-! ## Screens -/

theorem under_feed_get {i : Nat} {k : FeedController → Block}
    (hk : ∀ feed, (k feed).Under L A P) : (FeedController.get i k).Under L A P := by
  intro app _
  cases hi : app.feeds[i]? with
  | none => simp only [hi]; trivial
  | some feed => simp only [hi]; exact hk feed

theorem under_viewModel {i c : Nat} {k : Post → Block} (hk : ∀ post, (k post).Under L A P) :
    (FeedController.viewModel i c k).Under L A P := by
  refine under_feed_get fun feed => ?_
  cases feed.cells c with
  | none => trivial
  | some post => exact hk post

theorem under_profile_get {i : Nat} {k : ProfileController → Block}
    (hk : ∀ profile, (k profile).Under L A P) : (ProfileController.get i k).Under L A P := by
  intro app _
  cases hi : app.profiles[i]? with
  | none => simp only [hi]; trivial
  | some profile => simp only [hi]; exact hk profile

theorem under_notification_get {i : Nat} {k : NotificationController → Block}
    (hk : ∀ screen, (k screen).Under L A P) : (NotificationController.get i k).Under L A P := by
  intro app _
  cases hi : app.notifications[i]? with
  | none => simp only [hi]; trivial
  | some screen => simp only [hi]; exact hk screen

theorem under_search_get {i : Nat} {k : SearchController → Block}
    (hk : ∀ search, (k search).Under L A P) : (SearchController.get i k).Under L A P := by
  intro app _
  cases hi : app.searches[i]? with
  | none => simp only [hi]; trivial
  | some search => simp only [hi]; exact hk search

/-! ## Accounts -/

include hP in
theorem under_createUser {email password : String} {k : Except FIRError Uid → Block}
    (hm : ∀ uid, A (.createUser email password) (.ok uid) →
      P (.changed ({ · with currentUser := some uid })))
    (hk : ∀ r, A (.createUser email password) r → (k r).Under L A P) :
    (Auth.createUser email password k).Under L A P := by
  refine under_ask hP (fun a ha => ?_) trivial
  cases a with
  | ok uid => exact ⟨hm uid ha, hk _ ha⟩
  | error e => exact hk _ ha

include hP in
theorem under_signIn {email password : String} {k : Except FIRError Uid → Block}
    (hm : ∀ uid, A (.signIn email password) (.ok uid) →
      P (.changed ({ · with currentUser := some uid })))
    (hk : ∀ r, A (.signIn email password) r → (k r).Under L A P) :
    (Auth.signIn email password k).Under L A P := by
  refine under_ask hP (fun a ha => ?_) trivial
  cases a with
  | ok uid => exact ⟨hm uid ha, hk _ ha⟩
  | error e => exact hk _ ha

include hP in
theorem under_uploadImage {image : UIImage} {k : String → Block}
    (hk : ∀ url, (k url).Under L A P) : (ImageUploader.uploadImage image k).Under L A P := by
  unfold ImageUploader.uploadImage
  split
  · trivial
  · refine fun v => ⟨hP.supplied v, under_ask hP (fun a _ => ?_) trivial⟩
    cases a with
    | some _ => trivial
    | none =>
        refine under_ask hP (fun (url : Option String) _ => ?_) trivial
        cases url with
        | none => trivial
        | some url => exact hk url

include hP in
theorem under_registerUser {credentials : AuthCredentials} {completion : Completion}
    (hm : ∀ uid, A (.createUser credentials.email credentials.password) (.ok uid) →
      P (.changed ({ · with currentUser := some uid })))
    (hw : ∀ uid imageUrl, Sends P (.setData ⟨.users, uid⟩
      (AuthService.userData credentials imageUrl uid)))
    (hc : ∀ e, (completion e).Under L A P) :
    (AuthService.registerUser credentials completion).Under L A P := by
  refine ⟨under_uploadImage hP fun url => under_createUser hP hm fun r _ => ?_, trivial⟩
  cases r with
  | error e => exact hc _
  | ok uid => exact ⟨under_write (hw _ _) hc trivial, trivial⟩

include hP in
theorem under_upDateUser {username fullname : String} {image : UIImage} {completion : Completion}
    (hw : ∀ uid imageUrl, Sends P (.updateData ⟨.users, uid⟩
      [("fullname", .string fullname), ("profileImageUrl", .string imageUrl),
       ("username", .string username)])) :
    (AuthService.upDateUser username fullname image completion).Under L A P :=
  under_currentUid fun _ _ _ _ => under_uploadImage hP fun _ =>
    under_write (hw _ _) (fun _ => trivial) trivial

include hP in
theorem under_deletaUser (hm : ∀ uid, P (.changed (Auth.forget uid)))
    (hw : ∀ r, r.collection = .users ∨ r.collection = .posts → Sends P (.delete r)) :
    AuthService.deletaUser.Under L A P := by
  refine under_currentUid fun _ uid _ _ => ⟨Code.Under.andThen ?_ ?_, trivial⟩
  · refine under_write (hw _ (Or.inl rfl)) (fun e => ?_) trivial
    cases e with
    | some _ => trivial
    | none =>
        refine ⟨fun (a : Option (List (DocId × Dictionary))) _ => ⟨hP.answered _ _, ?_⟩, trivial⟩
        cases a with
        | none => trivial
        | some documents =>
            exact .forEach fun _ _ => under_write (hw _ (Or.inr rfl)) (fun _ => trivial) trivial
  · refine under_currentUid fun _ uid _ _ => under_ask hP (fun a _ => ?_) trivial
    cases a with
    | none => exact ⟨hm uid, trivial⟩
    | some _ => trivial

/-! ## Users -/

include hP in
theorem under_fetchUserWithUid {uid : Uid} {k : User → Block}
    (hk : ∀ data, A (.getDocument ⟨.users, uid⟩) (some (some data)) →
      (k (User.init data)).Under L A P) :
    (UserService.fetchUserWithUid uid k).Under L A P := by
  refine ⟨under_ask hP (fun (a : Option (Option Dictionary)) ha => ?_) trivial, trivial⟩
  rcases a with _ | _ | data
  · trivial
  · trivial
  · exact ⟨hk data ha, trivial⟩

include hP in
theorem under_fetchUser {k : User → Block}
    (hk : ∀ app uid data, L app → app.currentUser = some uid →
      A (.getDocument ⟨.users, uid⟩) (some (some data)) → (k (User.init data)).Under L A P) :
    (UserService.fetchUser k).Under L A P :=
  under_currentUid fun app uid hl hu => under_fetchUserWithUid hP fun data => hk app uid data hl hu

include hP in
theorem under_fetchUsers {k : List User → Block} (hk : ∀ users, (k users).Under L A P) :
    (UserService.fetchUsers k).Under L A P := by
  refine ⟨under_ask hP (fun (a : Option (List (DocId × Dictionary))) _ => ?_) trivial, trivial⟩
  cases a with
  | none => trivial
  | some documents => exact ⟨hk _, trivial⟩

theorem under_follow {uid : Uid} {completion : Completion}
    (hw : ∀ v, Sends P (.setData ⟨.userFollowing v, uid⟩ []) ∧
      Sends P (.setData ⟨.userFollowers uid, v⟩ []))
    (hc : ∀ e, (completion e).Under L A P) : (UserService.follow uid completion).Under L A P :=
  under_currentUid fun _ v _ _ => ⟨under_write (hw v).1
    (fun _ => under_write (hw v).2 hc trivial) trivial, trivial⟩

theorem under_unfollow {uid : Uid} {completion : Completion}
    (hw : ∀ v, Sends P (.delete ⟨.userFollowing v, uid⟩) ∧
      Sends P (.delete ⟨.userFollowers uid, v⟩))
    (hc : ∀ e, (completion e).Under L A P) : (UserService.unfollow uid completion).Under L A P :=
  under_currentUid fun _ v _ _ => ⟨under_write (hw v).1
    (fun _ => under_write (hw v).2 hc trivial) trivial, trivial⟩

include hP in
theorem under_checkIfUserIsFollowed {uid : Uid} {k : Bool → Block}
    (hk : ∀ b, (k b).Under L A P) : (UserService.checkIfUserIsFollowed uid k).Under L A P := by
  refine under_currentUid fun _ _ _ _ =>
    ⟨under_ask hP (fun (a : Option (Option Dictionary)) _ => ?_) trivial, trivial⟩
  cases a with
  | none => trivial
  | some data => exact ⟨hk _, trivial⟩

include hP in
theorem under_fetchUserState {uid : Uid} {k : UserStats → Block}
    (hk : ∀ stats, (k stats).Under L A P) : (UserService.fetchUserState uid k).Under L A P :=
  ⟨under_ask hP (fun _ _ => under_ask hP (fun _ _ => under_ask hP
    (fun _ _ => ⟨hk _, trivial⟩) trivial) trivial) trivial, trivial⟩

/-! ## Posts -/

include hP in
theorem under_updateUserFeedAfterPost {p : DocId}
    (hw : ∀ v, Sends P (.setData ⟨.userFeed v, p⟩ [])) :
    (PostService.updateUserFeedAfterPost p).Under L A P := by
  refine under_currentUid fun _ uid _ _ =>
    under_ask hP (fun (a : Option (List (DocId × Dictionary))) _ => ?_) trivial
  cases a with
  | none => trivial
  | some documents =>
      refine Code.Under.andThen ?_ (.forEach fun x _ => ?_)
      · exact under_write (hw uid) (fun _ => trivial) trivial
      · exact under_write (hw x.1) (fun _ => trivial) trivial

include hP in
theorem under_uploadPost {caption : String} {image : UIImage} {user : User}
    {completion : Completion}
    (hw : ∀ app uid imageUrl (e : Env), L app → app.currentUser = some uid →
      Sends P (.setData ⟨.posts, e.uuid⟩
        (PostService.postData caption imageUrl uid user e.now)))
    (hf : ∀ v p, Sends P (.setData ⟨.userFeed v, p⟩ []))
    (hc : ∀ e, (completion e).Under L A P) :
    (PostService.uploadPost caption image user completion).Under L A P :=
  under_currentUid fun app uid hl hu => ⟨under_uploadImage hP fun _ e => ⟨hP.supplied e,
    under_write (hw app uid _ e hl hu) hc (under_updateUserFeedAfterPost hP fun v => hf v _)⟩,
    trivial⟩

include hP in
theorem under_fetchPosts {k : List Post → Block}
    (hk : ∀ documents now,
      A (.getDocuments { collection := .posts, orderBy := some "timestamp" }) (some documents) →
      (k (PostService.posts documents now)).Under L A P) :
    (PostService.fetchPosts k).Under L A P := by
  refine ⟨under_ask hP (fun (a : Option (List (DocId × Dictionary))) ha => ?_) trivial, trivial⟩
  cases a with
  | none => trivial
  | some documents => exact fun v => ⟨hP.supplied v, hk documents _ ha, trivial⟩

include hP in
theorem under_fetchPostsForUser {uid : Uid} {k : List Post → Block}
    (hk : ∀ documents now,
      A (.getDocuments { collection := .posts, whereField := some ("ownerUid", .string uid) })
        (some documents) →
      (k (PostService.sortBySeconds (PostService.posts documents now))).Under L A P) :
    (PostService.fetchPostsForUser uid k).Under L A P := by
  refine ⟨under_ask hP (fun (a : Option (List (DocId × Dictionary))) ha => ?_) trivial, trivial⟩
  cases a with
  | none => trivial
  | some documents => exact fun v => ⟨hP.supplied v, hk documents _ ha, trivial⟩

include hP in
theorem under_fetchPost {p : DocId} {k : Post → Block}
    (hk : ∀ data now, A (.getDocument ⟨.posts, p⟩) (some (some data)) →
      (k (Post.init p data now)).Under L A P) : (PostService.fetchPost p k).Under L A P := by
  refine ⟨under_ask hP (fun (a : Option (Option Dictionary)) ha => ?_) trivial, trivial⟩
  rcases a with _ | _ | data
  · trivial
  · trivial
  · exact fun v => ⟨hP.supplied v, hk data _ ha, trivial⟩

theorem under_likePost {post : Post} {completion : Completion}
    (hw : ∀ v, Sends P (.updateData ⟨.posts, post.postId⟩ [("likes", .int (post.likes + 1))]) ∧
      Sends P (.setData ⟨.postLikes post.postId, v⟩ []) ∧
      Sends P (.setData ⟨.userLikes v, post.postId⟩ []))
    (hc : ∀ e, (completion e).Under L A P) : (PostService.likePost post completion).Under L A P :=
  under_currentUid fun _ v _ _ => ⟨under_write (hw v).1 (fun _ => trivial)
    (under_write (hw v).2.1 (fun _ => under_write (hw v).2.2 hc trivial) trivial), trivial⟩

theorem under_unlikePost {post : Post} {completion : Completion}
    (hw : ∀ v, Sends P (.updateData ⟨.posts, post.postId⟩ [("likes", .int (post.likes - 1))]) ∧
      Sends P (.delete ⟨.postLikes post.postId, v⟩) ∧
      Sends P (.delete ⟨.userLikes v, post.postId⟩))
    (hc : ∀ e, (completion e).Under L A P) :
    (PostService.unlikePost post completion).Under L A P := by
  refine under_currentUid fun _ v _ _ => ?_
  split
  · exact ⟨under_write (hw v).1 (fun _ => trivial)
      (under_write (hw v).2.1 (fun _ => under_write (hw v).2.2 hc trivial) trivial), trivial⟩
  · trivial

include hP in
theorem under_checkIfUserLikedPost {post : Post} {k : Bool → Block}
    (hk : ∀ b, (k b).Under L A P) : (PostService.checkIfUserLikedPost post k).Under L A P := by
  refine under_currentUid fun _ _ _ _ =>
    ⟨under_ask hP (fun (a : Option (Option Dictionary)) _ => ?_) trivial, trivial⟩
  cases a with
  | none => trivial
  | some data => exact hk _

include hP in
theorem under_updateUserFeedAfterFollowing {user : User} {didFollow : Bool}
    (hw : ∀ v p, Sends P (.setData ⟨.userFeed v, p⟩ []) ∧ Sends P (.delete ⟨.userFeed v, p⟩)) :
    (PostService.updateUserFeedAfterFollowing user didFollow).Under L A P := by
  refine under_currentUid fun _ v _ _ =>
    ⟨under_ask hP (fun (a : Option (List (DocId × Dictionary))) _ => ?_) trivial, trivial⟩
  cases a with
  | none => trivial
  | some documents =>
      refine .forEach fun x _ => ?_
      split
      · exact under_write (hw v x.1).1 (fun _ => trivial) trivial
      · exact under_write (hw v x.1).2 (fun _ => trivial) trivial

theorem under_removePost {p : DocId} {uid : Uid} {completion : Completion}
    (hw : Sends P (.delete ⟨.posts, p⟩)) :
    (PostService.removePost p uid completion).Under L A P := by
  refine under_currentUid fun _ _ _ _ => ?_
  split
  · exact under_write hw (fun _ => trivial) trivial
  · trivial

/-! ## Comments and notifications -/

include hP in
theorem under_uploadComment {comment : String} {p : DocId} {user : User} {completion : Completion}
    (hw : ∀ e : Env, Sends P (.setData ⟨.comments p, e.uuid⟩
      (CommentService.commentData comment user e.now)))
    (hc : ∀ e, (completion e).Under L A P) :
    (CommentService.uploadComment comment p user completion).Under L A P :=
  ⟨fun e => ⟨hP.supplied e, under_write (hw e) hc trivial⟩, trivial⟩

/-- The document of a notification about a post, or about none. -/
def postNotice (currentUid : Uid) (fromUser : User) (type : NotificationType) (post : Option Post)
    (e : Env) : Dictionary :=
  match post with
  | some post => NotificationService.notificationData currentUid fromUser type e ++
      [("postId", .string post.postId), ("postImageUrl", .string post.imageUrl)]
  | none => NotificationService.notificationData currentUid fromUser type e

include hP in
theorem under_uploadNotification {uid : Uid} {fromUser : User} {type : NotificationType}
    {post : Option Post}
    (hw : ∀ app v (e : Env), L app → app.currentUser = some v → uid ≠ v →
      Sends P (.setData ⟨.userNotifications uid, e.uuid⟩ (postNotice v fromUser type post e))) :
    (NotificationService.uploadNotification uid fromUser type post).Under L A P := by
  refine under_currentUid fun app v hl hu => ?_
  split
  · next hne =>
      exact ⟨fun e => ⟨hP.supplied e, under_write (hw app v e hl hu (by simpa using hne))
        (fun _ => trivial) trivial⟩, trivial⟩
  · trivial

include hP in
theorem under_uploadFollowNotification {uid : Uid} {fromUser : User} {type : NotificationType}
    (hw : ∀ e : Env, Sends P (.setData ⟨.userNotifications uid, e.uuid⟩
      (NotificationService.notificationData fromUser.uid fromUser type e))) :
    (NotificationService.uploadFollowNotification uid fromUser type).Under L A P := by
  refine under_currentUid fun _ _ _ _ => ?_
  split
  · exact ⟨fun e => ⟨hP.supplied e, under_write (hw e) (fun _ => trivial) trivial⟩, trivial⟩
  · trivial

include hP in
theorem under_fetchNotification {k : List Notification → Block}
    (hk : ∀ notifications, (k notifications).Under L A P) :
    (NotificationService.fetchNotification k).Under L A P := by
  refine under_currentUid fun _ _ _ _ =>
    ⟨under_ask hP (fun (a : Option (List (DocId × Dictionary))) _ => ?_) trivial, trivial⟩
  cases a with
  | none => trivial
  | some documents => exact fun v => ⟨hP.supplied v, hk _, trivial⟩

end

end DogVillage
