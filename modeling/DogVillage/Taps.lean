import DogVillage.Village

/-!
# What a tap starts

The taps that lead to writes, inverted: which guards were passed, which
operation the call is tagged with, and the block the main thread then
runs, its reads settled. Later proofs take a tap apart with these and
never unfold a controller.
-/

namespace DogVillage

open Async

variable {app : App} {i c : Nat}

/-! ## Likes -/

/-- The writes of `likePost`, its guard passed. -/
def likeWrites (post : Post) (uid : Uid) (completion : Completion) : Block :=
  .global
    (.write (.updateData ⟨.posts, post.postId⟩ [("likes", .int (post.likes + 1))])
      (fun _ => .done)
      (.write (.setData ⟨.postLikes post.postId, uid⟩ []) (fun _ =>
        .write (.setData ⟨.userLikes uid, post.postId⟩ []) completion .done) .done)) .done

/-- The writes of `unlikePost`, its guards passed. -/
def unlikeWrites (post : Post) (uid : Uid) (completion : Completion) : Block :=
  .global
    (.write (.updateData ⟨.posts, post.postId⟩ [("likes", .int (post.likes - 1))])
      (fun _ => .done)
      (.write (.delete ⟨.postLikes post.postId, uid⟩) (fun _ =>
        .write (.delete ⟨.userLikes uid, post.postId⟩) completion .done) .done)) .done

/-- The change made by `FeedController.toggleCell`. -/
def toggled (i c : Nat) (app : App) : App :=
  { app with
    feeds := app.feeds.modify i
      (FeedController.setCell c fun post => { post with didLike := !post.didLike }) }

inductive LikeTap (i c : Nat) (app : App) : Op → Block → Prop
  /-- No post in the cell, or no cached user. -/
  | none : LikeTap i c app .other .done
  /-- The cell is toggled, and the service's guard is not passed. -/
  | dropped {op post} (hshown : Action.shownPost app i c = some post)
      (hop : op = .like post ∨ op = .unlike post)
      (hguard : app.currentUser = Option.none ∨ post.didLike = true ∧ post.likes ≤ 0) :
      LikeTap i c app op (.modify (toggled i c) .done)
  | like {post user uid} (hshown : Action.shownPost app i c = some post)
      (huser : app.user = some user) (huid : app.currentUser = some uid)
      (hlike : post.didLike = false) :
      LikeTap i c app (.like post)
        (.modify (toggled i c) (likeWrites post uid (FeedController.onLike i c post user)))
  | unlike {post user uid} (hshown : Action.shownPost app i c = some post)
      (huser : app.user = some user) (huid : app.currentUser = some uid)
      (hlike : post.didLike = true) (hpos : post.likes > 0) :
      LikeTap i c app (.unlike post)
        (.modify (toggled i c) (unlikeWrites post uid (FeedController.onUnlike i c post)))

theorem likeTap (i c : Nat) (app : App) :
    LikeTap i c app ((Action.tapLike i c).op app) ((Action.tapLike i c).block.start app) := by
  simp only [Action.op, Action.block, FeedController.didTapLike, FeedController.viewModel,
    FeedController.get, Code.start, Action.shownPost]
  cases hf : app.feeds[i]? with
  | none => exact .none
  | some feed =>
      simp only [Option.bind_some]
      cases hc : feed.cells c with
      | none => exact .none
      | some post =>
          have hshown : Action.shownPost app i c = some post := by
            simp [Action.shownPost, hf, hc]
          simp only [FeedController.cellDidLike, FeedController.tabUser, Code.start]
          cases hu : app.user with
          | none => exact .none
          | some user =>
              simp only [FeedController.toggleCell, FeedController.modify, Code.seq_eq,
                Code.andThen, Code.start]
              cases hl : post.didLike with
              | true =>
                  simp only [if_true, PostService.unlikePost, currentUid, Code.start]
                  cases huid : app.currentUser with
                  | none => exact .dropped hshown (Or.inr rfl) (Or.inl huid)
                  | some uid =>
                      by_cases hpos : post.likes > 0
                      · simp only [if_pos hpos]
                        exact .unlike hshown hu huid hl hpos
                      · simp only [if_neg hpos]
                        exact .dropped hshown (Or.inr rfl) (Or.inr ⟨hl, not_lt.mp hpos⟩)
              | false =>
                  simp only [Bool.false_eq_true, if_false, PostService.likePost, currentUid,
                    Code.start]
                  cases huid : app.currentUser with
                  | none => exact .dropped hshown (Or.inl rfl) (Or.inl huid)
                  | some uid => exact .like hshown hu huid hl

/-! ## Follows -/

/-- The writes of `UserService.follow`, its guard passed. -/
def followWrites (currentUid uid : Uid) (completion : Completion) : Block :=
  .global
    (.write (.setData ⟨.userFollowing currentUid, uid⟩ []) (fun _error =>
      .write (.setData ⟨.userFollowers uid, currentUid⟩ []) completion .done) .done) .done

/-- The writes of `UserService.unfollow`, its guard passed. -/
def unfollowWrites (currentUid uid : Uid) (completion : Completion) : Block :=
  .global
    (.write (.delete ⟨.userFollowing currentUid, uid⟩) (fun _error =>
      .write (.delete ⟨.userFollowers uid, currentUid⟩) completion .done) .done) .done

inductive ProfileTap (i : Nat) (app : App) : Op → Block → Prop
  /-- A guard is not passed. -/
  | none {op} (h : op = .other ∨ app.currentUser = Option.none) : ProfileTap i app op .done
  | follow {profile user currentUser uid} (hi : app.profiles[i]? = some profile)
      (hheader : profile.header = some user) (huser : app.user = some currentUser)
      (huid : app.currentUser = some uid) (hne : uid ≠ user.uid) (hf : user.isFollowed = false) :
      ProfileTap i app (.follow user.uid)
        (followWrites uid user.uid (ProfileController.onFollow i user currentUser))
  | unfollow {profile user currentUser uid} (hi : app.profiles[i]? = some profile)
      (hheader : profile.header = some user) (huser : app.user = some currentUser)
      (huid : app.currentUser = some uid) (hne : uid ≠ user.uid) (hf : user.isFollowed = true) :
      ProfileTap i app (.unfollow user.uid)
        (unfollowWrites uid user.uid (ProfileController.onUnfollow i user))

theorem profileTap (i : Nat) (app : App) :
    ProfileTap i app ((Action.tapActionButton i).op app)
      ((Action.tapActionButton i).block.start app) := by
  simp only [Action.op, Action.block, ProfileController.handleEditProfileFollowTapped,
    ProfileController.get, Code.start]
  cases hi : app.profiles[i]? with
  | none => exact .none (Or.inl rfl)
  | some profile =>
      simp only [Option.bind_some]
      cases hh : profile.header with
      | none => exact .none (Or.inl rfl)
      | some user =>
          simp only [ProfileController.didTapActionButton, FeedController.tabUser, Code.start]
          cases hu : app.user with
          | none => exact .none (Or.inl rfl)
          | some currentUser =>
              simp only [Code.start]
              by_cases hown : app.currentUser = some user.uid
              · simp only [hown, beq_self_eq_true, if_true]
                exact .none (Or.inl rfl)
              · simp only [beq_iff_eq, hown, if_false]
                cases huid : app.currentUser with
                | none =>
                    cases hf : user.isFollowed <;>
                      simp only [if_true, if_false, Bool.false_eq_true, UserService.follow,
                        UserService.unfollow, currentUid, Code.start, huid] <;>
                      exact .none (Or.inr huid)
                | some uid =>
                    have hne : uid ≠ user.uid := fun h => hown (by rw [huid, h])
                    cases hf : user.isFollowed with
                    | true =>
                        simp only [if_true, UserService.unfollow, currentUid, Code.start, huid]
                        exact .unfollow hi hh hu huid hne hf
                    | false =>
                        simp only [Bool.false_eq_true, if_false, UserService.follow, currentUid,
                          Code.start, huid]
                        exact .follow hi hh hu huid hne hf

/-- The change made by `showLoader`. -/
def loader (show_ : Bool) (app : App) : App := { app with hud := show_ }

inductive NotificationTap (i c : Nat) (app : App) : Op → Block → Prop
  | none : NotificationTap i c app .other .done
  | dropped {op} (huid : app.currentUser = Option.none) :
      NotificationTap i c app op (.modify (loader true) .done)
  | follow {n uid} (hn : app.notifications[i]?.bind (·.cells c) = some n)
      (huid : app.currentUser = some uid) (hf : n.userIsFollowed = false) :
      NotificationTap i c app (.follow n.uid)
        (.modify (loader true) (followWrites uid n.uid (NotificationController.onTap i c)))
  | unfollow {n uid} (hn : app.notifications[i]?.bind (·.cells c) = some n)
      (huid : app.currentUser = some uid) (hf : n.userIsFollowed = true) :
      NotificationTap i c app (.unfollow n.uid)
        (.modify (loader true) (unfollowWrites uid n.uid (NotificationController.onTap i c)))

theorem notificationTap (i c : Nat) (app : App) :
    NotificationTap i c app ((Action.tapFollow i c).op app)
      ((Action.tapFollow i c).block.start app) := by
  simp only [Action.op, Action.block, NotificationController.handleFollowTapped,
    NotificationController.viewModel, NotificationController.get, Code.start]
  cases hi : app.notifications[i]? with
  | none => exact .none
  | some screen =>
      simp only [Option.bind_some]
      cases hc : screen.cells c with
      | none => exact .none
      | some n =>
          have hn : app.notifications[i]?.bind (·.cells c) = some n := by simp [hi, hc]
          cases hf : n.userIsFollowed with
          | true =>
              simp only [if_true, hf, NotificationController.wantsToUnfollow, showLoader,
                Code.seq_eq, Code.andThen, Code.start, UserService.unfollow, currentUid]
              cases huid : app.currentUser with
              | none => exact .dropped huid
              | some uid => exact .unfollow hn huid hf
          | false =>
              simp only [Bool.false_eq_true, if_false, hf, NotificationController.wantsToFollow,
                showLoader, Code.seq_eq, Code.andThen, Code.start, UserService.follow, currentUid]
              cases huid : app.currentUser with
              | none => exact .dropped huid
              | some uid => exact .follow hn huid hf

/-! ## Comments -/

/-- The write of `uploadComment`. -/
def commentWrite (comment : String) (postID : DocId) (user : User) (completion : Completion) :
    Block :=
  .global
    (.env fun e =>
      .write (.setData ⟨.comments postID, e.uuid⟩ (CommentService.commentData comment user e.now))
        completion .done) .done

inductive CommentTap (i : Nat) (comment : String) (app : App) : Op → Block → Prop
  | none : CommentTap i comment app .other .done
  | send {post user} (hi : app.comments[i]? = some ⟨post⟩) (huser : app.user = some user) :
      CommentTap i comment app (.comment post.postId)
        (.modify (loader true)
          (commentWrite comment post.postId user (CommentController.onComment post user)))

theorem commentTap (i : Nat) (comment : String) (app : App) :
    CommentTap i comment app ((Action.sendComment i comment).op app)
      ((Action.sendComment i comment).block.start app) := by
  simp only [Action.op, Action.block, CommentController.inputView, Code.start]
  cases hi : app.comments[i]? with
  | none => exact .none
  | some screen =>
      obtain ⟨post⟩ := screen
      simp only [FeedController.tabUser, Code.start]
      cases hu : app.user with
      | none => exact .none
      | some user => exact .send hi hu

/-! ## Uploads -/

/-- What `uploadPost` does in the background, its guard passed. -/
def uploadWrites (caption : String) (image : UIImage) (user : User) (uid : Uid)
    (completion : Completion) : Block :=
  .global
    (ImageUploader.uploadImage image fun imageUrl =>
      .env fun e =>
        .write (.setData ⟨.posts, e.uuid⟩ (PostService.postData caption imageUrl uid user e.now))
          completion (PostService.updateUserFeedAfterPost e.uuid)) .done

inductive UploadTap (i : Nat) (caption : String) (app : App) : Op → Block → Prop
  | none : UploadTap i caption app .other .done
  | dropped (huid : app.currentUser = Option.none) :
      UploadTap i caption app .upload (.modify (loader true) .done)
  | upload {image user uid} (hi : app.uploads[i]? = some ⟨some image, some user⟩)
      (huid : app.currentUser = some uid) :
      UploadTap i caption app .upload
        (.modify (loader true)
          (uploadWrites caption image user uid UploadPostController.onUpload))

theorem uploadTap (i : Nat) (caption : String) (app : App) :
    UploadTap i caption app ((Action.tapDone i caption).op app)
      ((Action.tapDone i caption).block.start app) := by
  simp only [Action.op, Action.block, UploadPostController.didTapDone, Code.start]
  rcases hi : app.uploads[i]? with _ | ⟨_ | image, _ | user⟩
  · exact .none
  · exact .none
  · exact .none
  · exact .none
  · simp only [showLoader, Code.seq_eq, Code.andThen, Code.start, PostService.uploadPost,
      currentUid]
    cases huid : app.currentUser with
    | none => exact .dropped huid
    | some uid => exact .upload hi huid

/-! ## Removals -/

/-- The alert is taken off the screen. -/
def dismiss (k : Nat) (app : App) : App := { app with alerts := app.alerts.eraseIdx k }

inductive RemoveTap (k : Nat) (yes : Bool) (app : App) : Op → Block → Prop
  | none (hk : app.alerts[k]? = Option.none) : RemoveTap k yes app .other .done
  | no {x} (hk : app.alerts[k]? = some x) (hyes : yes = false) :
      RemoveTap k yes app .other (.modify (dismiss k) .done)
  /-- The captured user is not the account signed in. -/
  | kept {post user} (hk : app.alerts[k]? = some (post, user)) (hyes : yes = true)
      (huid : app.currentUser ≠ some user.uid) :
      RemoveTap k yes app (.remove post.postId)
        (.modify (dismiss k) (.modify (loader true) (.modify (loader false) .done)))
  | removed {post user} (hk : app.alerts[k]? = some (post, user)) (hyes : yes = true)
      (huid : app.currentUser = some user.uid) :
      RemoveTap k yes app (.remove post.postId)
        (.modify (dismiss k) (.modify (loader true)
          (.write (.delete ⟨.posts, post.postId⟩) (fun _ => .done) (.modify (loader false) .done))))

theorem removeTap (k : Nat) (yes : Bool) (app : App) :
    RemoveTap k yes app ((Action.answerAlert k yes).op app)
      ((Action.answerAlert k yes).block.start app) := by
  simp only [Action.block, FeedController.answerAlert, Code.start]
  rcases hk : app.alerts[k]? with _ | ⟨post, user⟩
  · cases yes with
    | true => simp only [Action.op, hk]; exact .none hk
    | false => exact .none hk
  · cases yes with
    | false => exact .no hk rfl
    | true =>
        simp only [Action.op, hk, if_true, FeedController.yesAction, showLoader, Code.seq_eq,
          Code.andThen, Code.start, PostService.removePost, currentUid]
        cases huid : app.currentUser with
        | none => exact .kept hk rfl (by simp [huid])
        | some uid =>
            by_cases hu : user.uid = uid
            · simp only [hu, beq_self_eq_true, if_true, Code.andThen]
              exact .removed hk rfl (by rw [huid, hu])
            · simp only [beq_iff_eq, hu, if_false, Code.andThen]
              exact .kept hk rfl (by rw [huid]; exact fun h => hu (Option.some.inj h).symm)

/-! ## Deletions of an account -/

/-- What `deletaUser` does in the background, its guard passed. -/
def deleteWrites (uid : Uid) : Block :=
  Auth.delete (fun _ => .done) >>
  .write (.delete ⟨.users, uid⟩) (fun error =>
    match error with
    | some _ => .done
    | none =>
        .listen (.getDocuments
            { collection := .posts, whereField := some ("ownerUid", .string uid) })
          (fun snapshot =>
            match snapshot with
            | none => .done
            | some documents =>
                .forEach documents fun document =>
                  .write (.delete ⟨.posts, document.1⟩) (fun _ => .done) .done) .done) .done

inductive DeleteTap (app : App) : Block → Prop
  | none (huid : app.currentUser = Option.none) :
      DeleteTap app (.modify (loader true) (.modify (loader false) .done))
  | delete {uid} (huid : app.currentUser = some uid) :
      DeleteTap app
        (.modify (loader true) (.global (deleteWrites uid) (.modify (loader false) .done)))

theorem deleteTap (app : App) : DeleteTap app (Action.deleteAccount.block.start app) := by
  simp only [Action.block, EditProfileContrller.yesAction, showLoader, Code.seq_eq,
    Code.andThen, Code.start, AuthService.deletaUser, currentUid]
  cases huid : app.currentUser with
  | none => exact .none huid
  | some uid => exact .delete huid

end DogVillage
