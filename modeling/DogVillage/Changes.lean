import DogVillage.Failures
import DogVillage.SoundCode
import DogVillage.Async.Reach

/-!
# How the screens change

Every change the app makes to its memory, by kind: what becomes of the
cells of the feeds and of the notifications, and where the posts of the
lists come from. The cells are bound, toggled and counted one by one; the
lists only ever hold what was read. The code of every action is looked at
once, for all runs.
-/

namespace DogVillage

open Async

/-! ## Lists -/

/-- The lists hold posts with a count that was read; what was, is up to
`Read`. -/
structure Lists (Read : DocId → Int → Prop) (app : App) : Prop where
  posts : ∀ feed ∈ app.feeds, ∀ p ∈ feed.posts, Read p.postId p.likes
  post : ∀ feed ∈ app.feeds, ∀ p, feed.post = some p → Read p.postId p.likes
  profiles : ∀ screen ∈ app.profiles, ∀ p ∈ screen.posts, Read p.postId p.likes
  searches : ∀ screen ∈ app.searches, ∀ p ∈ screen.posts, Read p.postId p.likes

/-- Posts are answered with counts as `Read` has them. -/
def AnswersRead (Read : DocId → Int → Prop) : (q : Ask) → q.Ans → Prop
  | .getDocument r, a => r.collection = .posts →
      ∀ data, a = some (some data) → Read r.id (Dictionary.int data "likes")
  | .getDocuments q, a => q.collection = .posts →
      ∀ documents, a = some documents → ∀ x ∈ documents, Read x.1 (Dictionary.int x.2 "likes")
  | _, _ => True

/-! ## Kinds of changes -/

/-- A cell of a feed, or of the notifications. -/
inductive Cell
  | post (i c : Nat)
  | notification (i c : Nat)
deriving DecidableEq, Repr

/-- The change made by `FeedController.cellForItemAt`. -/
def bindFeedCell (i row c : Nat) (app : App) : App :=
  { app with
    feeds := app.feeds.modify i fun feed =>
      match feed.post.or feed.posts[row]? with
      | some post =>
          { feed with
            cells := Function.update feed.cells c (some post)
            rows := Function.update feed.rows c (some row) }
      | none => feed }

/-- The change made by `NotificationController.cellForRowAt`. -/
def bindRowCell (i row c : Nat) (app : App) : App :=
  { app with
    notifications := app.notifications.modify i fun n =>
      match n.notifications[row]? with
      | some notification =>
          { n with
            cells := Function.update n.cells c (some notification)
            rows := Function.update n.rows c (some row) }
      | none => n }

/-- The change made by the completions of a row's follow button. -/
def toggledRow (i c : Nat) (app : App) : App :=
  { app with notifications := app.notifications.modify i (NotificationController.toggleCell c) }

/-- The count a like or unlike of `post` computes. -/
def Call.computes (t : Call) (post : Post) (n : Int) : Prop :=
  t.op = .like post ∧ n = post.likes + 1 ∨ t.op = .unlike post ∧ n = post.likes - 1

/-- What a change under call `t` does to the feeds. Cells are toggled and
counted only where `taps` are made. -/
inductive FeedsChange (taps : Cell → Prop) (t : Call) (f : App → App) : Prop
  | keep (h : ∀ app, (f app).feeds = app.feeds)
  | push {feed : FeedController} (h : ∀ app, (f app).feeds = app.feeds ++ [feed])
      (hcells : feed.cells = fun _ => none) (hrows : feed.rows = fun _ => none)
  | lists {i g} (h : ∀ app, (f app).feeds = app.feeds.modify i g)
      (hcells : ∀ feed, (g feed).cells = feed.cells)
      (hrows : ∀ feed, g feed = feed ∨ (g feed).rows = fun _ => none)
  | bind {i row c} (h : f = bindFeedCell i row c)
  | toggle {i c post} (h : f = toggled i c) (ht : taps (.post i c))
      (hop : t.op = .like post ∨ t.op = .unlike post)
  | count {i c post n} (h : f = setLikes i c n) (ht : taps (.post i c)) (hop : t.computes post n)

/-- Likewise for the notifications. -/
inductive RowsChange (taps : Cell → Prop) (f : App → App) : Prop
  | keep (h : ∀ app, (f app).notifications = app.notifications)
  | push {n : NotificationController}
      (h : ∀ app, (f app).notifications = app.notifications ++ [n])
      (hcells : n.cells = fun _ => none) (hrows : n.rows = fun _ => none)
  | lists {i g} (h : ∀ app, (f app).notifications = app.notifications.modify i g)
      (hcells : ∀ n, (g n).cells = n.cells)
      (hrows : ∀ n, g n = n ∨ (g n).rows = fun _ => none)
  | bind {i row c} (h : f = bindRowCell i row c)
  | toggle {i c} (h : f = toggledRow i c) (ht : taps (.notification i c))

structure Change (Read : DocId → Int → Prop) (taps : Cell → Prop) (t : Call) (f : App → App) : Prop where
  feeds : FeedsChange taps t f
  rows : RowsChange taps f
  lists : ∀ app, Lists Read app → Lists Read (f app)

/-- What is seen, when it is a change, is of one of these kinds. -/
def Changes (Read : DocId → Int → Prop) (taps : Cell → Prop) (t : Call) (x : Obs sig) : Prop :=
  ∀ f, x = .changed f → Change Read taps t f

/-- Code whose every change is of one of these kinds. -/
abbrev Kind (Read : DocId → Int → Prop) (taps : Cell → Prop) (t : Call) (c : Block) : Prop :=
  c.Under (Lists Read) (AnswersRead Read) (Changes Read taps t)

section

variable {Read : DocId → Int → Prop} {taps : Cell → Prop} {t : Call} {i row c : Nat}

@[simp] theorem kind_issued (w : Write) : Changes Read taps t (.issued w) := fun _ h => by cases h
@[simp] theorem kind_wrote (w : Write) (r : Option FIRError) :
    Changes Read taps t (.wrote w r) := fun _ h => by cases h
@[simp] theorem kind_answered (q : Ask) (a : q.Ans) : Changes Read taps t (.answered q a) :=
  fun _ h => by cases h
@[simp] theorem kind_supplied (v : Env) : Changes Read taps t (.supplied v) :=
  fun _ h => by cases h
theorem kind_changed {f : App → App} (h : Change Read taps t f) :
    Changes Read taps t (.changed f) := fun _ hf => by cases hf; exact h

theorem Changes.preserves (f : App → App) (h : Changes Read taps t (.changed f)) :
    ∀ app, Lists Read app → Lists Read (f app) := (h f rfl).lists

/-! ## Statements -/

/-- A change of nothing the kinds are about. -/
theorem Change.keep {f : App → App} (hfeeds : ∀ app, (f app).feeds = app.feeds)
    (hprofiles : ∀ app, (f app).profiles = app.profiles)
    (hsearches : ∀ app, (f app).searches = app.searches)
    (hrows : ∀ app, (f app).notifications = app.notifications) : Change Read taps t f where
  feeds := .keep hfeeds
  rows := .keep hrows
  lists app h :=
    { posts := by rw [hfeeds]; exact h.posts
      post := by rw [hfeeds]; exact h.post
      profiles := by rw [hprofiles]; exact h.profiles
      searches := by rw [hsearches]; exact h.searches }

theorem kind_modify {f : App → App} {n : Block} (hf : Change Read taps t f)
    (hn : Kind Read taps t n) : Kind Read taps t (.modify f n) := ⟨kind_changed hf, hn⟩

theorem kind_write {w : Write} {handler : Completion} {n : Block}
    (hh : ∀ e, Kind Read taps t (handler e)) (hn : Kind Read taps t n) :
    Kind Read taps t (.write w handler n) := ⟨kind_issued w, fun r => ⟨kind_wrote w r, hh r⟩, hn⟩

theorem kind_ask {q : Ask} {handler : q.Ans → Block} {n : Block}
    (hh : ∀ a, AnswersRead Read q a → Kind Read taps t (handler a)) (hn : Kind Read taps t n) :
    Kind Read taps t (.ask q handler n) := ⟨fun a ha => ⟨kind_answered q a, hh a ha⟩, hn⟩

theorem kind_currentUid {k : Uid → Block} (h : ∀ uid, Kind Read taps t (k uid)) :
    Kind Read taps t (currentUid k) := by
  intro app _
  cases hu : app.currentUser with
  | none => simp only [hu]; trivial
  | some uid => simp only [hu]; exact h uid

theorem kind_showLoader {b : Bool} : Kind Read taps t (showLoader b) :=
  kind_modify (.keep (fun _ => rfl) (fun _ => rfl) (fun _ => rfl) fun _ => rfl) trivial

/-! ## Services -/

theorem kind_createUser {email password : String} {k : Except FIRError Uid → Block}
    (hk : ∀ r, Kind Read taps t (k r)) : Kind Read taps t (Auth.createUser email password k) := by
  refine kind_ask (fun a _ => ?_) trivial
  cases a with
  | ok uid => exact kind_modify (.keep (fun _ => rfl) (fun _ => rfl) (fun _ => rfl) fun _ => rfl) (hk _)
  | error e => exact hk _

theorem kind_signIn {email password : String} {k : Except FIRError Uid → Block}
    (hk : ∀ r, Kind Read taps t (k r)) : Kind Read taps t (Auth.signIn email password k) := by
  refine kind_ask (fun a _ => ?_) trivial
  cases a with
  | ok uid => exact kind_modify (.keep (fun _ => rfl) (fun _ => rfl) (fun _ => rfl) fun _ => rfl) (hk _)
  | error e => exact hk _

theorem kind_uploadImage {image : UIImage} {k : String → Block}
    (hk : ∀ url, Kind Read taps t (k url)) :
    Kind Read taps t (ImageUploader.uploadImage image k) := by
  unfold ImageUploader.uploadImage
  split
  · trivial
  · refine fun v => ⟨kind_supplied v, kind_ask (fun a _ => ?_) trivial⟩
    cases a with
    | some _ => trivial
    | none =>
        refine kind_ask (fun (url : Option String) _ => ?_) trivial
        cases url with
        | none => trivial
        | some url => exact hk url

theorem kind_registerUser {credentials : AuthCredentials} {completion : Completion}
    (hc : ∀ e, Kind Read taps t (completion e)) :
    Kind Read taps t (AuthService.registerUser credentials completion) := by
  refine ⟨kind_uploadImage fun url => kind_createUser fun r => ?_, trivial⟩
  cases r with
  | error e => exact hc _
  | ok uid => exact ⟨kind_write hc trivial, trivial⟩

theorem kind_upDateUser {username fullname : String} {image : UIImage} {completion : Completion} :
    Kind Read taps t (AuthService.upDateUser username fullname image completion) :=
  kind_currentUid fun _ => kind_uploadImage fun _ => kind_write (fun _ => trivial) trivial

theorem kind_fetchUserWithUid {uid : Uid} {k : User → Block}
    (hk : ∀ user, Kind Read taps t (k user)) :
    Kind Read taps t (UserService.fetchUserWithUid uid k) := by
  refine ⟨kind_ask (fun (a : Option (Option Dictionary)) _ => ?_) trivial, trivial⟩
  cases a.join with
  | none => trivial
  | some data => exact ⟨hk _, trivial⟩

theorem kind_fetchUser {k : User → Block} (hk : ∀ user, Kind Read taps t (k user)) :
    Kind Read taps t (UserService.fetchUser k) :=
  kind_currentUid fun _ => kind_fetchUserWithUid hk

theorem kind_fetchUsers {k : List User → Block} (hk : ∀ users, Kind Read taps t (k users)) :
    Kind Read taps t (UserService.fetchUsers k) := by
  refine ⟨kind_ask (fun (a : Option (List (DocId × Dictionary))) _ => ?_) trivial, trivial⟩
  cases a with
  | none => trivial
  | some documents => exact ⟨hk _, trivial⟩

theorem kind_follow {uid : Uid} {completion : Completion}
    (hc : ∀ e, Kind Read taps t (completion e)) :
    Kind Read taps t (UserService.follow uid completion) :=
  kind_currentUid fun _ => ⟨kind_write (fun _ => kind_write hc trivial) trivial, trivial⟩

theorem kind_unfollow {uid : Uid} {completion : Completion}
    (hc : ∀ e, Kind Read taps t (completion e)) :
    Kind Read taps t (UserService.unfollow uid completion) :=
  kind_currentUid fun _ => ⟨kind_write (fun _ => kind_write hc trivial) trivial, trivial⟩

theorem kind_checkIfUserIsFollowed {uid : Uid} {k : Bool → Block}
    (hk : ∀ b, Kind Read taps t (k b)) :
    Kind Read taps t (UserService.checkIfUserIsFollowed uid k) := by
  refine kind_currentUid fun _ =>
    ⟨kind_ask (fun (a : Option (Option Dictionary)) _ => ?_) trivial, trivial⟩
  cases a with
  | none => trivial
  | some data => exact ⟨hk _, trivial⟩

theorem kind_fetchUserState {uid : Uid} {k : UserStats → Block}
    (hk : ∀ stats, Kind Read taps t (k stats)) :
    Kind Read taps t (UserService.fetchUserState uid k) :=
  ⟨kind_ask (fun _ _ => kind_ask (fun _ _ => kind_ask (fun _ _ => ⟨hk _, trivial⟩) trivial) trivial)
    trivial, trivial⟩

theorem kind_uploadPost {caption : String} {image : UIImage} {user : User}
    {completion : Completion} (hc : ∀ e, Kind Read taps t (completion e)) :
    Kind Read taps t (PostService.uploadPost caption image user completion) := by
  refine kind_currentUid fun _ => ⟨kind_uploadImage fun _ v => ⟨kind_supplied v,
    kind_write hc (kind_currentUid fun _ => ?_)⟩, trivial⟩
  refine kind_ask (fun (a : Option (List (DocId × Dictionary))) _ => ?_) trivial
  cases a with
  | none => trivial
  | some documents =>
      refine Code.Under.andThen ?_ (.forEach fun _ _ => kind_write (fun _ => trivial) trivial)
      exact kind_write (fun _ => trivial) trivial

/-- The posts of an answered query were read. -/
theorem AnswersRead.posts {q : Query Collection Value} {documents : List (DocId × Dictionary)}
    (h : AnswersRead Read (.getDocuments q) (some documents)) (hq : q.collection = .posts)
    {now : Timestamp} : ∀ p ∈ PostService.posts documents now, Read p.postId p.likes := by
  intro p hp
  obtain ⟨x, hx, rfl⟩ := List.mem_map.mp hp
  exact h hq documents rfl x hx

theorem kind_fetchPosts {k : List Post → Block}
    (hk : ∀ posts, (∀ p ∈ posts, Read p.postId p.likes) → Kind Read taps t (k posts)) :
    Kind Read taps t (PostService.fetchPosts k) := by
  refine ⟨kind_ask (fun (a : Option (List (DocId × Dictionary))) ha => ?_) trivial, trivial⟩
  cases a with
  | none => trivial
  | some documents => exact fun v => ⟨kind_supplied v, hk _ (ha.posts rfl), trivial⟩

theorem kind_fetchPostsForUser {uid : Uid} {k : List Post → Block}
    (hk : ∀ posts, (∀ p ∈ posts, Read p.postId p.likes) → Kind Read taps t (k posts)) :
    Kind Read taps t (PostService.fetchPostsForUser uid k) := by
  refine ⟨kind_ask (fun (a : Option (List (DocId × Dictionary))) ha => ?_) trivial, trivial⟩
  cases a with
  | none => trivial
  | some documents =>
      exact fun v => ⟨kind_supplied v, hk _ fun p hp => ha.posts rfl p (mem_sortBySeconds.mp hp),
        trivial⟩

theorem kind_fetchPost {p : DocId} {k : Post → Block}
    (hk : ∀ post, Read post.postId post.likes → Kind Read taps t (k post)) :
    Kind Read taps t (PostService.fetchPost p k) := by
  refine ⟨kind_ask (fun (a : Option (Option Dictionary)) ha => ?_) trivial, trivial⟩
  rcases a with _ | _ | data
  · trivial
  · trivial
  · exact fun v => ⟨kind_supplied v, hk _ (ha rfl data rfl), trivial⟩

theorem kind_checkIfUserLikedPost {post : Post} {k : Bool → Block}
    (hk : ∀ b, Kind Read taps t (k b)) :
    Kind Read taps t (PostService.checkIfUserLikedPost post k) := by
  refine kind_currentUid fun _ =>
    ⟨kind_ask (fun (a : Option (Option Dictionary)) _ => ?_) trivial, trivial⟩
  cases a with
  | none => trivial
  | some data => exact hk _

theorem kind_updateUserFeedAfterFollowing {user : User} {didFollow : Bool} :
    Kind Read taps t (PostService.updateUserFeedAfterFollowing user didFollow) := by
  refine kind_currentUid fun _ =>
    ⟨kind_ask (fun (a : Option (List (DocId × Dictionary))) _ => ?_) trivial, trivial⟩
  cases a with
  | none => trivial
  | some documents =>
      refine .forEach fun _ _ => ?_
      split <;> exact kind_write (fun _ => trivial) trivial

theorem kind_removePost {p : DocId} {uid : Uid} {completion : Completion} :
    Kind Read taps t (PostService.removePost p uid completion) := by
  refine kind_currentUid fun _ => ?_
  split
  · exact kind_write (fun _ => trivial) trivial
  · trivial

theorem kind_uploadComment {comment : String} {p : DocId} {user : User} {completion : Completion}
    (hc : ∀ e, Kind Read taps t (completion e)) :
    Kind Read taps t (CommentService.uploadComment comment p user completion) :=
  ⟨fun v => ⟨kind_supplied v, kind_write hc trivial⟩, trivial⟩

theorem kind_uploadNotification {uid : Uid} {fromUser : User} {type : NotificationType}
    {post : Option Post} :
    Kind Read taps t (NotificationService.uploadNotification uid fromUser type post) := by
  refine kind_currentUid fun _ => ?_
  split
  · exact ⟨fun v => ⟨kind_supplied v, kind_write (fun _ => trivial) trivial⟩, trivial⟩
  · trivial

theorem kind_uploadFollowNotification {uid : Uid} {fromUser : User} {type : NotificationType} :
    Kind Read taps t (NotificationService.uploadFollowNotification uid fromUser type) := by
  refine kind_currentUid fun _ => ?_
  split
  · exact ⟨fun v => ⟨kind_supplied v, kind_write (fun _ => trivial) trivial⟩, trivial⟩
  · trivial

theorem kind_fetchNotification {k : List Notification → Block}
    (hk : ∀ ns, Kind Read taps t (k ns)) :
    Kind Read taps t (NotificationService.fetchNotification k) := by
  refine kind_currentUid fun _ =>
    ⟨kind_ask (fun (a : Option (List (DocId × Dictionary))) _ => ?_) trivial, trivial⟩
  cases a with
  | none => trivial
  | some documents => exact fun v => ⟨kind_supplied v, hk _, trivial⟩

/-! ## Feeds -/

/-- The lists of a feed hold what was read. -/
def FeedRead (Read : DocId → Int → Prop) (feed : FeedController) : Prop :=
  (∀ p ∈ feed.posts, Read p.postId p.likes) ∧ ∀ p, feed.post = some p → Read p.postId p.likes

theorem Lists.feed {app : App} (h : Lists Read app) {feed : FeedController}
    (hf : feed ∈ app.feeds) : FeedRead Read feed := ⟨h.posts feed hf, h.post feed hf⟩

theorem Lists.feeds {app : App} (h : Lists Read app) {feeds : List FeedController}
    (hf : ∀ feed ∈ feeds, FeedRead Read feed) : Lists Read { app with feeds := feeds } where
  posts feed hm := (hf feed hm).1
  post feed hm := (hf feed hm).2
  profiles := h.profiles
  searches := h.searches

theorem Lists.modify_feed {app : App} (h : Lists Read app) {g : FeedController → FeedController}
    (hg : ∀ feed, FeedRead Read feed → FeedRead Read (g feed)) :
    Lists Read { app with feeds := app.feeds.modify i g } :=
  h.feeds (forall_mem_modify (fun _ hm => h.feed hm) hg)

/-- A change of a feed's lists. -/
theorem Change.feed {g : FeedController → FeedController}
    (hcells : ∀ feed, (g feed).cells = feed.cells)
    (hrows : ∀ feed, g feed = feed ∨ (g feed).rows = fun _ => none)
    (hg : ∀ feed, FeedRead Read feed → FeedRead Read (g feed)) :
    Change Read taps t fun app => { app with feeds := app.feeds.modify i g } where
  feeds := .lists (fun _ => rfl) hcells hrows
  rows := .keep fun _ => rfl
  lists _ h := h.modify_feed hg

/-- A change of a feed's cells. -/
theorem Change.cells {g : FeedController → FeedController}
    (hf : FeedsChange taps t fun app => { app with feeds := app.feeds.modify i g })
    (hg : ∀ feed, (g feed).posts = feed.posts ∧ (g feed).post = feed.post) :
    Change Read taps t fun app => { app with feeds := app.feeds.modify i g } where
  feeds := hf
  rows := .keep fun _ => rfl
  lists _ h := h.modify_feed fun feed hr => by rwa [FeedRead, (hg feed).1, (hg feed).2]

theorem kind_feed_get {k : FeedController → Block}
    (hk : ∀ feed, FeedRead Read feed → Kind Read taps t (k feed)) :
    Kind Read taps t (FeedController.get i k) := by
  intro app h
  cases hi : app.feeds[i]? with
  | none => simp only [hi]; trivial
  | some feed => simp only [hi]; exact hk feed (h.feed (List.mem_of_getElem? hi))

theorem kind_push_post {post : Post} (hp : Read post.postId post.likes) :
    Kind Read taps t (FeedController.push { post := some post }) := by
  refine kind_modify ⟨.push (fun _ => rfl) rfl rfl, .keep fun _ => rfl, fun app h => ?_⟩ trivial
  refine h.feeds (forall_mem_push (fun _ hm => h.feed hm) ⟨fun _ hm => (by cases hm), ?_⟩)
  rintro p ⟨rfl⟩
  exact hp

theorem kind_checkIfUserLikedPosts : Kind Read taps t (FeedController.checkIfUserLikedPosts i) := by
  refine kind_feed_get fun feed _ => ?_
  cases feed.post with
  | some post =>
      refine kind_checkIfUserLikedPost fun b =>
        ⟨kind_modify (.feed (fun _ => rfl) (fun _ => Or.inr rfl) ?_) trivial, trivial⟩
      intro feed hr
      refine ⟨hr.1, fun p hp => ?_⟩
      obtain ⟨post, hpost, rfl⟩ := Option.map_eq_some_iff.mp hp
      exact hr.2 post hpost
  | none =>
      refine .forEach fun post _ => kind_checkIfUserLikedPost fun b =>
        ⟨kind_modify (.feed (fun feed => ?_) (fun feed => ?_) fun feed hr => ?_) trivial, trivial⟩
      · unfold FeedController.setDidLike
        split <;> rfl
      · unfold FeedController.setDidLike
        split
        · exact Or.inr rfl
        · exact Or.inl rfl
      · unfold FeedController.setDidLike
        split
        · exact ⟨forall_mem_modify (P := fun p : Post => Read p.postId p.likes) hr.1
            fun _ h => h, hr.2⟩
        · exact hr

theorem kind_feed_fetchPosts : Kind Read taps t (FeedController.fetchPosts i) := by
  refine kind_feed_get fun feed _ => ?_
  cases feed.post with
  | some _ => trivial
  | none =>
      refine kind_fetchPosts fun posts hposts => Code.Under.andThen kind_checkIfUserLikedPosts ?_
      exact kind_modify
        (.feed (fun _ => rfl) (fun _ => Or.inr rfl) fun feed hr => ⟨hposts, hr.2⟩) trivial

theorem kind_feed_viewDidLoad : Kind Read taps t (FeedController.viewDidLoad i) := by
  refine Code.Under.andThen (kind_feed_get fun feed _ => ?_) kind_feed_fetchPosts
  split
  · exact kind_checkIfUserLikedPosts
  · trivial

theorem kind_handleRefresh : Kind Read taps t (FeedController.handleRefresh i) := by
  refine Code.Under.andThen kind_feed_fetchPosts
    (kind_modify (.feed (fun _ => rfl) (fun _ => Or.inr rfl) ?_) trivial)
  exact fun feed hr => ⟨fun _ h => (by cases h), hr.2⟩

theorem kind_cellForItemAt : Kind Read taps t (FeedController.cellForItemAt i row c) := by
  refine kind_modify (.cells (.bind rfl) fun feed => ?_) trivial
  cases feed.post.or feed.posts[row]? <;> exact ⟨rfl, rfl⟩

theorem kind_viewModel {k : Post → Block} (hk : ∀ post, Kind Read taps t (k post)) :
    Kind Read taps t (FeedController.viewModel i c k) :=
  kind_feed_get fun feed _ => by
    cases feed.cells c with
    | none => trivial
    | some post => exact hk post

theorem kind_tabUser {k : User → Block} (hk : ∀ user, Kind Read taps t (k user)) :
    Kind Read taps t (FeedController.tabUser k) := by
  intro app _
  cases hu : app.user with
  | none => simp only [hu]; trivial
  | some user => simp only [hu]; exact hk user

/-- A like or unlike counts the cell it was tapped in. -/
theorem kind_onUnlike {post : Post} (ht : taps (.post i c)) (hop : t.op = .unlike post)
    (e : Option FIRError) : Kind Read taps t (FeedController.onUnlike i c post e) := by
  cases e with
  | some _ => trivial
  | none => exact kind_modify (.cells (.count rfl ht (Or.inr ⟨hop, rfl⟩)) fun _ => ⟨rfl, rfl⟩) trivial

theorem kind_onLike {post : Post} {user : User} (ht : taps (.post i c)) (hop : t.op = .like post)
    (e : Option FIRError) : Kind Read taps t (FeedController.onLike i c post user e) := by
  cases e with
  | some _ => trivial
  | none =>
      refine Code.Under.andThen kind_uploadNotification (kind_modify ?_ trivial)
      exact .cells (.count rfl ht (Or.inl ⟨hop, rfl⟩)) fun _ => ⟨rfl, rfl⟩

theorem kind_tapLike {app : App} {actor : Option Uid}
    (ht : (Action.tapLike i c).op app ≠ .other → taps (.post i c)) :
    Kind Read taps ⟨actor, (Action.tapLike i c).op app⟩ ((Action.tapLike i c).block.start app) := by
  have htap := likeTap i c app
  generalize (Action.tapLike i c).op app = op at ht htap
  generalize (Action.tapLike i c).block.start app = blk at htap
  have toggle : ∀ {post : Post} {n : Block}, op = .like post ∨ op = .unlike post →
      Kind Read taps ⟨actor, op⟩ n → Kind Read taps ⟨actor, op⟩ (.modify (toggled i c) n) :=
    fun hop hn => kind_modify (.cells (.toggle rfl (ht (by
      rcases hop with rfl | rfl <;> simp)) hop) fun _ => ⟨rfl, rfl⟩) hn
  cases htap with
  | none => trivial
  | dropped _ hop _ => exact toggle hop trivial
  | like =>
      refine toggle (Or.inl rfl) ⟨kind_write (fun _ => trivial) (kind_write (fun _ =>
        kind_write (fun e => ?_) trivial) trivial), trivial⟩
      exact kind_onLike (ht (by simp)) rfl e
  | unlike =>
      refine toggle (Or.inr rfl) ⟨kind_write (fun _ => trivial) (kind_write (fun _ =>
        kind_write (fun e => ?_) trivial) trivial), trivial⟩
      exact kind_onUnlike (ht (by simp)) rfl e

theorem kind_didTapComment : Kind Read taps t (FeedController.didTapComment i c) :=
  kind_viewModel fun _ =>
    kind_modify (.keep (fun _ => rfl) (fun _ => rfl) (fun _ => rfl) fun _ => rfl) trivial

/-- A new profile screen has no posts yet. -/
theorem kind_showProfile {user : User} : Kind Read taps t (FeedController.showProfile user) := by
  refine kind_modify ⟨.keep fun _ => rfl, .keep fun _ => rfl, fun app h => ?_⟩ trivial
  exact { h with profiles := forall_mem_push h.profiles fun _ h => by cases h }

theorem kind_showUserProfile : Kind Read taps t (FeedController.showUserProfile i c) :=
  kind_viewModel fun _ => kind_fetchUserWithUid fun _ => kind_showProfile

theorem kind_didTapRemove : Kind Read taps t (FeedController.didTapRemove i c) := by
  refine kind_viewModel fun _ => kind_tabUser fun _ => ?_
  refine kind_modify (.keep (fun _ => rfl) (fun _ => rfl) (fun _ => rfl) fun _ => rfl) ?_
  exact kind_modify (.feed (fun _ => rfl) (fun _ => Or.inr rfl) fun _ hr => hr) trivial

theorem kind_answerAlert {k : Nat} {yes : Bool} :
    Kind Read taps t (FeedController.answerAlert k yes) := by
  intro app _
  cases hk : app.alerts[k]? with
  | none => simp only [hk]; trivial
  | some x =>
      simp only [hk]
      refine kind_modify (.keep (fun _ => rfl) (fun _ => rfl) (fun _ => rfl) fun _ => rfl) ?_
      cases yes with
      | false => trivial
      | true =>
          exact Code.Under.andThen (Code.Under.andThen kind_showLoader kind_removePost)
            kind_showLoader

/-! ## Profiles -/

theorem kind_profile_modify {g : ProfileController → ProfileController}
    (hg : ∀ screen, (∀ p ∈ screen.posts, Read p.postId p.likes) →
      ∀ p ∈ (g screen).posts, Read p.postId p.likes) :
    Kind Read taps t (ProfileController.modify i g) := by
  refine kind_modify ⟨.keep fun _ => rfl, .keep fun _ => rfl, fun app h => ?_⟩ trivial
  exact { h with profiles := forall_mem_modify h.profiles hg }

theorem kind_profile_get {k : ProfileController → Block}
    (hk : ∀ screen, (∀ p ∈ screen.posts, Read p.postId p.likes) → Kind Read taps t (k screen)) :
    Kind Read taps t (ProfileController.get i k) := by
  intro app h
  cases hi : app.profiles[i]? with
  | none => simp only [hi]; trivial
  | some screen => simp only [hi]; exact hk screen (h.profiles screen (List.mem_of_getElem? hi))

theorem kind_profile_check : Kind Read taps t (ProfileController.checkIfUserIsFollowed i) :=
  kind_profile_get fun _ _ => kind_checkIfUserIsFollowed fun _ => kind_profile_modify fun _ h => h

theorem kind_fetchUserStats : Kind Read taps t (ProfileController.fetchUserStats i) :=
  kind_profile_get fun _ _ => kind_fetchUserState fun _ => kind_profile_modify fun _ h => h

theorem kind_profile_fetchPost : Kind Read taps t (ProfileController.fetchPost i) :=
  kind_profile_get fun _ _ => kind_fetchPostsForUser fun _ hp => kind_profile_modify fun _ _ => hp

theorem kind_tapActionButton :
    Kind Read taps t (ProfileController.handleEditProfileFollowTapped i) := by
  refine kind_profile_get fun screen _ => ?_
  cases screen.header with
  | none => trivial
  | some user =>
      refine kind_tabUser fun currentUser app _ => ?_
      simp only
      split
      · trivial
      · split
        · refine kind_unfollow fun _ => Code.Under.andThen kind_updateUserFeedAfterFollowing ?_
          exact kind_profile_modify fun _ h => h
        · refine kind_follow fun _ => Code.Under.andThen (Code.Under.andThen
            kind_updateUserFeedAfterFollowing kind_uploadFollowNotification) ?_
          exact kind_profile_modify fun _ h => h

theorem kind_profile_select : Kind Read taps t (ProfileController.didSelectItemAt i row) := by
  refine kind_profile_get fun screen hp => ?_
  cases hrow : screen.posts[row]? with
  | none => trivial
  | some post => exact kind_push_post (hp post (List.mem_of_getElem? hrow))

/-! ## Notifications -/

/-- A change of a screen's notifications. -/
theorem Change.rows_modify {g : NotificationController → NotificationController}
    (hr : RowsChange taps fun app => { app with notifications := app.notifications.modify i g }) :
    Change Read taps t fun app => { app with notifications := app.notifications.modify i g } where
  feeds := .keep fun _ => rfl
  rows := hr
  lists _ h := { h with }

theorem kind_rows_get {k : NotificationController → Block} (hk : ∀ n, Kind Read taps t (k n)) :
    Kind Read taps t (NotificationController.get i k) := by
  intro app _
  cases hi : app.notifications[i]? with
  | none => simp only [hi]; trivial
  | some n => simp only [hi]; exact hk n

theorem kind_rows_check : Kind Read taps t (NotificationController.checkIfUserIsFollowed i) := by
  refine kind_rows_get fun n => .forEach fun notification _ => ?_
  split
  · refine kind_checkIfUserIsFollowed fun b =>
      kind_modify (.rows_modify (.lists (fun _ => rfl) (fun n => ?_) fun n => ?_)) trivial
    · unfold NotificationController.setIsFollowed
      split <;> rfl
    · unfold NotificationController.setIsFollowed
      split
      · exact Or.inr rfl
      · exact Or.inl rfl
  · trivial

theorem kind_fetchNotifications :
    Kind Read taps t (NotificationController.fetchNotifications i) :=
  kind_fetchNotification fun _ => Code.Under.andThen kind_rows_check
    (kind_modify (.rows_modify (.lists (fun _ => rfl) (fun _ => rfl) fun _ => Or.inr rfl)) trivial)

theorem kind_rows_refresh : Kind Read taps t (NotificationController.handleRefresh i) :=
  ⟨Code.Under.andThen kind_fetchNotifications
    (kind_modify (.rows_modify (.lists (fun _ => rfl) (fun _ => rfl) fun _ => Or.inr rfl)) trivial),
    trivial⟩

theorem kind_cellForRowAt : Kind Read taps t (NotificationController.cellForRowAt i row c) :=
  kind_modify (.rows_modify (.bind rfl)) trivial

theorem kind_notificationSelect :
    Kind Read taps t (NotificationController.didSelectRowAt i row) := by
  refine kind_rows_get fun n => ?_
  cases n.notifications[row]? with
  | none => trivial
  | some notification =>
      exact Code.Under.andThen (kind_fetchUserWithUid fun _ =>
        Code.Under.andThen kind_showProfile kind_showLoader) kind_showLoader

theorem kind_onTap (ht : taps (.notification i c)) {e : Option FIRError} :
    Kind Read taps t (NotificationController.onTap i c e) := by
  refine Code.Under.andThen ?_ kind_showLoader
  exact kind_modify (.rows_modify (.toggle rfl ht)) trivial

theorem kind_tapFollow {app : App}
    (ht : (Action.tapFollow i c).op app ≠ .other → app.currentUser ≠ none →
      taps (.notification i c)) :
    Kind Read taps t ((Action.tapFollow i c).block.start app) := by
  have htap := notificationTap i c app
  generalize (Action.tapFollow i c).op app = op at ht htap
  generalize (Action.tapFollow i c).block.start app = blk at htap
  cases htap with
  | none => trivial
  | dropped => exact kind_modify (.keep (fun _ => rfl) (fun _ => rfl) (fun _ => rfl) fun _ => rfl) trivial
  | follow _ huid _ =>
      refine kind_modify (.keep (fun _ => rfl) (fun _ => rfl) (fun _ => rfl) fun _ => rfl)
        ⟨kind_write (fun _ => kind_write (fun e => ?_) trivial) trivial, trivial⟩
      exact kind_onTap (ht (by simp) (by simp [huid]))
  | unfollow _ huid _ =>
      refine kind_modify (.keep (fun _ => rfl) (fun _ => rfl) (fun _ => rfl) fun _ => rfl)
        ⟨kind_write (fun _ => kind_write (fun e => ?_) trivial) trivial, trivial⟩
      exact kind_onTap (ht (by simp) (by simp [huid]))

theorem kind_handlePostTapped : Kind Read taps t (NotificationController.handlePostTapped i c) := by
  refine kind_rows_get fun n => ?_
  cases n.cells c with
  | none => trivial
  | some notification =>
      simp only
      cases notification.postId with
      | none => trivial
      | some p =>
          exact Code.Under.andThen (kind_fetchPost fun post hp =>
            Code.Under.andThen (kind_push_post hp) kind_showLoader) kind_showLoader

/-! ## The other screens -/

theorem kind_search_modify {g : SearchController → SearchController}
    (hg : ∀ screen, (∀ p ∈ screen.posts, Read p.postId p.likes) →
      ∀ p ∈ (g screen).posts, Read p.postId p.likes) :
    Kind Read taps t (SearchController.modify i g) := by
  refine kind_modify ⟨.keep fun _ => rfl, .keep fun _ => rfl, fun app h => ?_⟩ trivial
  exact { h with searches := forall_mem_modify h.searches hg }

theorem kind_search_get {k : SearchController → Block}
    (hk : ∀ screen, (∀ p ∈ screen.posts, Read p.postId p.likes) → Kind Read taps t (k screen)) :
    Kind Read taps t (SearchController.get i k) := by
  intro app h
  cases hi : app.searches[i]? with
  | none => simp only [hi]; trivial
  | some screen => simp only [hi]; exact hk screen (h.searches screen (List.mem_of_getElem? hi))

theorem kind_search_viewDidLoad : Kind Read taps t (SearchController.viewDidLoad i) :=
  Code.Under.andThen (kind_fetchPosts fun _ hp => kind_search_modify fun _ _ => hp)
    (kind_fetchUsers fun _ => kind_search_modify fun _ h => h)

theorem kind_search_selectUser : Kind Read taps t (SearchController.didSelectRowAt i row) := by
  refine kind_search_get fun screen _ => ?_
  cases screen.users[row]? with
  | none => trivial
  | some user => exact kind_showProfile

theorem kind_search_selectPost : Kind Read taps t (SearchController.didSelectItemAt i row) := by
  refine kind_search_get fun screen hp => ?_
  cases hrow : screen.posts[row]? with
  | none => trivial
  | some post => exact kind_push_post (hp post (List.mem_of_getElem? hrow))

theorem kind_inputView {comment : String} :
    Kind Read taps t (CommentController.inputView i comment) := by
  intro app _
  cases hi : app.comments[i]? with
  | none => simp only [hi]; trivial
  | some screen =>
      simp only [hi]
      exact kind_tabUser fun _ => Code.Under.andThen (kind_uploadComment fun _ =>
        Code.Under.andThen kind_uploadNotification kind_showLoader) kind_showLoader

/-- The screens of the tabs are new: an empty feed, no notifications. -/
theorem kind_setUser {user : User} : Kind Read taps t (MainTabController.setUser user) := by
  refine kind_modify ⟨.push (fun _ => rfl) rfl rfl, .push (fun _ => rfl) rfl rfl, fun app h => ?_⟩
    trivial
  exact
    { posts := forall_mem_push h.posts fun _ h => by cases h
      post := forall_mem_push h.post fun _ h => by cases h
      profiles := forall_mem_push h.profiles fun _ h => by cases h
      searches := forall_mem_push h.searches fun _ h => by cases h }

theorem kind_tab_fetchUser : Kind Read taps t MainTabController.fetchUser :=
  kind_fetchUser fun _ => kind_setUser

theorem kind_onUpload {e : Option FIRError} : Kind Read taps t (UploadPostController.onUpload e) := by
  refine Code.Under.andThen ?_ kind_showLoader
  cases e with
  | some _ => trivial
  | none =>
      intro app _
      cases htab : app.tabFeed with
      | none => simp only [htab]; trivial
      | some feed => simp only [htab]; exact kind_handleRefresh

theorem kind_didTapDone {caption : String} :
    Kind Read taps t (UploadPostController.didTapDone i caption) := by
  intro app _
  simp only
  split
  · exact Code.Under.andThen (kind_uploadPost fun _ => kind_onUpload) kind_showLoader
  · trivial

theorem kind_handleLogin {email password : String} :
    Kind Read taps t (LoginController.handleLogin email password) := by
  refine Code.Under.andThen (kind_signIn fun r => ?_) kind_showLoader
  cases r with
  | error _ => exact kind_showLoader
  | ok _ => exact Code.Under.andThen kind_tab_fetchUser kind_showLoader

theorem kind_handleSignUp {email password fullname username : String} {image : UIImage} :
    Kind Read taps t
      (RegisterationController.handleSignUp email password fullname username image) := by
  refine Code.Under.andThen (kind_registerUser fun e => ?_) kind_showLoader
  cases e with
  | some _ => exact kind_showLoader
  | none => exact Code.Under.andThen kind_tab_fetchUser kind_showLoader

theorem kind_handleResetPassword {email : String} :
    Kind Read taps t (ResetPasswordController.handleResetPassword email) := by
  refine Code.Under.andThen ?_ kind_showLoader
  refine kind_ask (fun (a : Option FIRError) _ => ?_) trivial
  cases a with
  | some _ => exact kind_showLoader
  | none => trivial

theorem kind_editProfile {username fullname : String} {image : UIImage} :
    Kind Read taps t (ResetInfomation.handleSignUp username fullname image) :=
  Code.Under.andThen (Code.Under.andThen kind_showLoader kind_upDateUser) kind_showLoader

theorem kind_deletaUser : Kind Read taps t AuthService.deletaUser := by
  refine kind_currentUid fun uid => ⟨Code.Under.andThen ?_ ?_, trivial⟩
  · refine kind_write (fun e => ?_) trivial
    cases e with
    | some _ => trivial
    | none =>
        refine ⟨fun (a : Option (List (DocId × Dictionary))) _ => ⟨kind_answered _ _, ?_⟩, trivial⟩
        cases a with
        | none => trivial
        | some documents => exact .forEach fun _ _ => kind_write (fun _ => trivial) trivial
  · refine kind_currentUid fun _ => kind_ask (fun (a : Option FIRError) _ => ?_) trivial
    cases a with
    | some _ => trivial
    | none => exact kind_modify (.keep (fun _ => rfl) (fun _ => rfl) (fun _ => rfl) fun _ => rfl) trivial

theorem kind_deleteAccount : Kind Read taps t EditProfileContrller.yesAction :=
  Code.Under.andThen (Code.Under.andThen kind_showLoader kind_deletaUser) kind_showLoader

/-! ## Every action -/

/-- A tap on the like button, or the follow button, of this cell that takes
effect. -/
def Action.Taps (a : Action) (cell : Cell) (app : App) : Prop :=
  match cell with
  | .post i c => a = .tapLike i c ∧ a.op app ≠ .other
  | .notification i c => a = .tapFollow i c ∧ a.op app ≠ .other ∧ app.currentUser ≠ none

theorem kind_action {a : Action} {app : App} (ht : ∀ cell, a.Taps cell app → taps cell)
    (h : Lists Read app) :
    Kind Read taps ⟨app.currentUser, a.op app⟩ (a.block.start app) := by
  have start : ∀ {c : Block} {t : Call}, Kind Read taps t c → Kind Read taps t (c.start app) :=
    fun hc => hc.start Changes.preserves h
  cases a with
  | tapLike i c => exact kind_tapLike fun h => ht (.post i c) ⟨rfl, h⟩
  | tapFollow i c => exact kind_tapFollow fun h₁ h₂ => ht (.notification i c) ⟨rfl, h₁, h₂⟩
  | tabDidLoad => exact start kind_tab_fetchUser
  | didFinishPicking image =>
      exact start (kind_modify (.keep (fun _ => rfl) (fun _ => rfl) (fun _ => rfl) fun _ => rfl) trivial)
  | feedDidLoad i => exact start kind_feed_viewDidLoad
  | feedWillAppear i => exact start kind_feed_fetchPosts
  | feedRefresh i => exact start kind_handleRefresh
  | feedCell i row c => exact start kind_cellForItemAt
  | tapComment i c => exact start kind_didTapComment
  | tapUser i c => exact start kind_showUserProfile
  | tapRemove i c => exact start kind_didTapRemove
  | answerAlert k yes => exact start kind_answerAlert
  | logout =>
      exact start (kind_modify (.keep (fun _ => rfl) (fun _ => rfl) (fun _ => rfl) fun _ => rfl) trivial)
  | profileDidLoad i =>
      exact start (Code.Under.andThen (Code.Under.andThen kind_profile_fetchPost kind_fetchUserStats)
        kind_profile_check)
  | profileWillAppear i => exact start (Code.Under.andThen kind_fetchUserStats kind_profile_fetchPost)
  | profileHeader i => exact start (kind_profile_modify fun _ h => h)
  | tapActionButton i => exact start kind_tapActionButton
  | profileSelect i row => exact start kind_profile_select
  | notificationDidLoad i => exact start kind_fetchNotifications
  | notificationRefresh i => exact start kind_rows_refresh
  | notificationCell i row c => exact start kind_cellForRowAt
  | tapPost i c => exact start kind_handlePostTapped
  | notificationSelect i row => exact start kind_notificationSelect
  | searchDidLoad i => exact start kind_search_viewDidLoad
  | searchSelectUser i row => exact start kind_search_selectUser
  | searchSelectPost i row => exact start kind_search_selectPost
  | sendComment i comment => exact start kind_inputView
  | tapDone i caption => exact start kind_didTapDone
  | login email password => exact start kind_handleLogin
  | signUp email password fullname username image => exact start kind_handleSignUp
  | resetPassword email => exact start kind_handleResetPassword
  | editProfile username fullname image => exact start kind_editProfile
  | deleteAccount => exact start kind_deleteAccount

end

end DogVillage
