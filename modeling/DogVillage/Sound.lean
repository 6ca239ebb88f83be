import DogVillage.Taps
import DogVillage.Async.Owe

/-!
# Where the data comes from

Every post, user and notification the app holds was decoded from a
document, and every document was written from such values. So what holds
of the documents a run begins with and of what the app writes holds of
every copy, however old and wherever it is: in a document, on a screen, in
a write in flight or in a pending closure. The facts tracked here are
about the log, which only grows:

* a post's id was handed out to an operation of its owner, and the post
  has been sent to `posts`;
* a uid that is stored anywhere was registered;
* a count of likes is at least 0 and at most the number of likes made;
* posts are deleted by removals and account deletions, users by deletions
  of their own account, and whoever registers an account writes its user.

`sound` is the spec for `Async.Guard`. With `strict`, a post is deleted on
behalf of its owner only.
-/

namespace DogVillage

open Async

abbrev Log (D : Type) := List (Entry village D)

section

variable {D : Type}

/-! ## Facts about the log -/

/-- The id `p` was handed out to an operation of the account `u`. -/
def Owner (log : Log D) (p : DocId) (u : Uid) : Prop :=
  ∃ x ∈ log, ∃ e : Env, x.obs = .supplied e ∧ e.uuid = p ∧ x.tag.actor = some u

/-- The document `posts/p` has been sent. -/
def Posted (log : Log D) (p : DocId) : Prop :=
  ∃ x ∈ log, ∃ data, x.obs = .issued (.setData ⟨.posts, p⟩ data) ∨
    x.obs = .wrote (.setData ⟨.posts, p⟩ data) none

/-- The document `posts/p` was written. -/
def Stored (log : Log D) (p : DocId) : Prop :=
  ∃ x ∈ log, ∃ data, x.obs = .wrote (.setData ⟨.posts, p⟩ data) none

theorem Stored.posted {log : Log D} {p : DocId} (h : Stored log p) : Posted log p := by
  obtain ⟨x, hx, data, ho⟩ := h
  exact ⟨x, hx, data, Or.inr ho⟩

/-- The account `u` was registered. -/
def Member (log : Log D) (u : Uid) : Prop :=
  ∃ x ∈ log, ∃ email password, x.obs = .answered (.createUser email password) (.ok u)

def isLikeCall (x : Entry village D) : Bool :=
  match x.obs, x.tag.op with
  | .acted, .like _ => true
  | _, _ => false

/-- The number of calls of `likePost`. -/
def likeCalls (log : Log D) : Nat := log.countP isLikeCall

/-- A count of likes within bounds. -/
def Within (log : Log D) (n : Int) : Prop := 0 ≤ n ∧ n ≤ likeCalls log

/-! ## Sound values -/

structure PostOk (log : Log D) (post : Post) : Prop where
  stored : Stored log post.postId
  owner : Owner log post.postId post.ownerUid
  member : Member log post.ownerUid
  likes : Within log post.likes

theorem PostOk.posted {log : Log D} {post : Post} (h : PostOk log post) :
    Posted log post.postId := h.stored.posted

def UserOk (log : Log D) (user : User) : Prop := Member log user.uid

def NotificationOk (log : Log D) (n : Notification) : Prop := Member log n.uid

structure FeedOk (log : Log D) (feed : FeedController) : Prop where
  posts : ∀ p ∈ feed.posts, PostOk log p
  post : ∀ p, feed.post = some p → PostOk log p
  cells : ∀ c p, feed.cells c = some p → PostOk log p

structure ProfileOk (log : Log D) (screen : ProfileController) : Prop where
  user : UserOk log screen.user
  posts : ∀ p ∈ screen.posts, PostOk log p
  header : ∀ u, screen.header = some u → UserOk log u

structure NotificationsOk (log : Log D) (screen : NotificationController) : Prop where
  notifications : ∀ n ∈ screen.notifications, NotificationOk log n
  cells : ∀ c n, screen.cells c = some n → NotificationOk log n

structure SearchOk (log : Log D) (screen : SearchController) : Prop where
  users : ∀ u ∈ screen.users, UserOk log u
  posts : ∀ p ∈ screen.posts, PostOk log p

structure AppOk (log : Log D) (app : App) : Prop where
  currentUser : ∀ u, app.currentUser = some u → Member log u
  user : ∀ u, app.user = some u → UserOk log u
  feeds : ∀ feed ∈ app.feeds, FeedOk log feed
  profiles : ∀ screen ∈ app.profiles, ProfileOk log screen
  notifications : ∀ screen ∈ app.notifications, NotificationsOk log screen
  searches : ∀ screen ∈ app.searches, SearchOk log screen
  comments : ∀ screen ∈ app.comments, PostOk log screen.post
  uploads : ∀ screen ∈ app.uploads, ∀ u, screen.currentUser = some u → UserOk log u
  alerts : ∀ x ∈ app.alerts, PostOk log x.1 ∧ UserOk log x.2

/-- The dictionary names its author under `key`. -/
def Authored (log : Log D) (key : String) (data : Dictionary) (u : Uid) : Prop :=
  data.lookup key = some (.string u) ∧ Member log u

/-- A sound document. -/
def DocOk (log : Log D) (r : Ref Collection) (data : Dictionary) : Prop :=
  match r.collection with
  | .users => Authored log "uid" data r.id
  | .posts =>
      (∃ u, Authored log "ownerUid" data u ∧ Owner log r.id u) ∧
        ∃ n, data.lookup "likes" = some (.int n) ∧ Within log n
  | .userFollowing _ => Member log r.id
  | .userFollowers _ => Member log r.id
  | .postLikes _ => Member log r.id
  | .comments _ => ∃ u, Authored log "uid" data u
  | .userLikes _ => Posted log r.id
  | .userFeed _ => Posted log r.id
  | .userNotifications _ =>
      (∃ u, Authored log "uid" data u) ∧
        ∀ v, data.lookup "postId" = some v → ∃ p, v = .string p ∧ Posted log p

/-- The count of likes the call writes to `posts/p`. -/
def Call.counts (t : Call) (p : DocId) (n : Int) : Prop :=
  ∃ post : Post, post.postId = p ∧
    (t.op = .like post ∧ n = post.likes + 1 ∨ t.op = .unlike post ∧ n = post.likes - 1)

/-- A write that keeps the documents sound, under a call that makes it. -/
def WriteOk (strict : Prop) (log : Log D) (t : Call) : Write → Prop
  | .setData ⟨.users, u⟩ data => DocOk log ⟨.users, u⟩ data ∧ t.op = .register
  | .setData ⟨.posts, p⟩ data => DocOk log ⟨.posts, p⟩ data ∧ t.op = .upload
  | .setData ⟨.postLikes p, u⟩ data =>
      DocOk log ⟨.postLikes p, u⟩ data ∧ ∃ post, t = ⟨some u, .like post⟩ ∧ post.postId = p
  | .setData r data => DocOk log r data
  | .updateData ⟨.users, _⟩ data => data.lookup "uid" = none
  | .updateData ⟨.posts, p⟩ data =>
      ∃ n, data = [("likes", .int n)] ∧ Within log n ∧ t.counts p n
  | .updateData _ _ => False
  | .delete ⟨.posts, p⟩ =>
      (t.op = .remove p ∨ t.op = .delete) ∧ (strict → ∃ u, t.actor = some u ∧ Owner log p u)
  | .delete ⟨.users, u⟩ => t = ⟨some u, .delete⟩
  | .delete ⟨.postLikes p, u⟩ => ∃ post, t = ⟨some u, .unlike post⟩ ∧ post.postId = p
  | .delete _ => True

theorem WriteOk.doc {strict : Prop} {log : Log D} {t : Call} {r : Ref Collection}
    {data : Dictionary} (h : WriteOk strict log t (.setData r data)) : DocOk log r data := by
  obtain ⟨c, i⟩ := r
  cases c with
  | users => exact h.1
  | posts => exact h.1
  | postLikes p => exact h.1
  | _ => exact h

/-- The document of a new account. -/
def newUser (uid : Uid) : Debt sig where
  write wr := ∃ data, wr = .setData ⟨.users, uid⟩ data

/-- Whoever registers an account goes on to write its document; only a
deletion deletes one. -/
def AskOk (t : Call) : (q : Ask) → (q.Ans → Block) → Prop
  | .createUser _ _, handler =>
      (∀ uid, (newUser uid).Owes (handler (.ok uid))) ∧ t.op = .register
  | .deleteAccount _, _ => t.op = .delete
  | _, _ => True

/-- A sound document as it is read. -/
def FetchedOk (log : Log D) (r : Ref Collection) (data : Dictionary) : Prop :=
  DocOk log r data ∧ (r.collection = .posts → Stored log r.id)

def AnswerOk (log : Log D) : (q : Ask) → q.Ans → Prop
  | .getDocument r, a => ∀ data, a = some (some data) → FetchedOk log r data
  | .getDocuments q, a => ∀ docs, a = some docs → ∀ x ∈ docs,
      FetchedOk log ⟨q.collection, x.1⟩ x.2 ∧ q.selects x.2 = true
  | .createUser _ _, a => ∀ u, a = .ok u → Member log u
  | .signIn _ _, a => ∀ u, a = .ok u → Member log u
  | _, _ => True

/-! ## The log only grows -/

section

variable {log log' : Log D} (h : log <:+ log')

include h

theorem Owner.mono {p : DocId} {u : Uid} (ho : Owner log p u) : Owner log' p u := by
  obtain ⟨x, hx, ho⟩ := ho
  exact ⟨x, h.subset hx, ho⟩

theorem Posted.mono {p : DocId} (hp : Posted log p) : Posted log' p := by
  obtain ⟨x, hx, hp⟩ := hp
  exact ⟨x, h.subset hx, hp⟩

theorem Stored.mono {p : DocId} (hp : Stored log p) : Stored log' p := by
  obtain ⟨x, hx, hp⟩ := hp
  exact ⟨x, h.subset hx, hp⟩

theorem Member.mono {u : Uid} (hm : Member log u) : Member log' u := by
  obtain ⟨x, hx, hm⟩ := hm
  exact ⟨x, h.subset hx, hm⟩

theorem likeCalls_mono : likeCalls log ≤ likeCalls log' := h.sublist.countP_le

theorem Within.mono {n : Int} (hn : Within log n) : Within log' n := by
  have := likeCalls_mono h
  exact ⟨hn.1, by have := hn.2; omega⟩

theorem PostOk.mono {post : Post} (hp : PostOk log post) : PostOk log' post :=
  ⟨hp.stored.mono h, hp.owner.mono h, hp.member.mono h, hp.likes.mono h⟩

theorem FeedOk.mono {feed : FeedController} (hf : FeedOk log feed) : FeedOk log' feed :=
  ⟨fun p hp => (hf.posts p hp).mono h, fun p hp => (hf.post p hp).mono h,
    fun c p hp => (hf.cells c p hp).mono h⟩

theorem ProfileOk.mono {screen : ProfileController} (hs : ProfileOk log screen) :
    ProfileOk log' screen :=
  ⟨Member.mono h hs.user, fun p hp => (hs.posts p hp).mono h,
    fun u hu => Member.mono h (hs.header u hu)⟩

theorem NotificationsOk.mono {screen : NotificationController}
    (hs : NotificationsOk log screen) : NotificationsOk log' screen :=
  ⟨fun n hn => Member.mono h (hs.notifications n hn), fun c n hn =>
    Member.mono h (hs.cells c n hn)⟩

theorem SearchOk.mono {screen : SearchController} (hs : SearchOk log screen) :
    SearchOk log' screen :=
  ⟨fun u hu => Member.mono h (hs.users u hu), fun p hp => (hs.posts p hp).mono h⟩

theorem AppOk.mono {app : App} (ha : AppOk log app) : AppOk log' app where
  currentUser u hu := (ha.currentUser u hu).mono h
  user u hu := Member.mono h (ha.user u hu)
  feeds x hx := (ha.feeds x hx).mono h
  profiles x hx := (ha.profiles x hx).mono h
  notifications x hx := (ha.notifications x hx).mono h
  searches x hx := (ha.searches x hx).mono h
  comments x hx := (ha.comments x hx).mono h
  uploads x hx u hu := Member.mono h (ha.uploads x hx u hu)
  alerts x hx := ⟨(ha.alerts x hx).1.mono h, Member.mono h (ha.alerts x hx).2⟩

theorem Authored.mono {key : String} {data : Dictionary} {u : Uid}
    (ha : Authored log key data u) : Authored log' key data u := ⟨ha.1, ha.2.mono h⟩

theorem DocOk.mono {r : Ref Collection} {data : Dictionary} (hd : DocOk log r data) :
    DocOk log' r data := by
  obtain ⟨c, i⟩ := r
  cases c with
  | users => exact Authored.mono h hd
  | posts =>
      obtain ⟨⟨u, ha, ho⟩, n, hn, hw⟩ := hd
      exact ⟨⟨u, ha.mono h, ho.mono h⟩, n, hn, hw.mono h⟩
  | userFollowing _ => exact Member.mono h hd
  | userFollowers _ => exact Member.mono h hd
  | postLikes _ => exact Member.mono h hd
  | comments _ => obtain ⟨u, ha⟩ := hd; exact ⟨u, ha.mono h⟩
  | userLikes _ => exact Posted.mono h hd
  | userFeed _ => exact Posted.mono h hd
  | userNotifications _ =>
      obtain ⟨⟨u, ha⟩, hp⟩ := hd
      refine ⟨⟨u, ha.mono h⟩, fun v hv => ?_⟩
      obtain ⟨p, rfl, hp⟩ := hp v hv
      exact ⟨p, rfl, hp.mono h⟩

theorem FetchedOk.mono {r : Ref Collection} {data : Dictionary} (hd : FetchedOk log r data) :
    FetchedOk log' r data := ⟨hd.1.mono h, fun hr => (hd.2 hr).mono h⟩

theorem WriteOk.mono {strict : Prop} {t : Call} {w : Write} (hw : WriteOk strict log t w) :
    WriteOk strict log' t w := by
  cases w with
  | setData r data =>
      obtain ⟨c, i⟩ := r
      cases c with
      | users => exact ⟨DocOk.mono h hw.1, hw.2⟩
      | posts => exact ⟨DocOk.mono h hw.1, hw.2⟩
      | postLikes p => exact ⟨DocOk.mono h hw.1, hw.2⟩
      | _ => exact DocOk.mono h (WriteOk.doc hw)
  | updateData r data =>
      obtain ⟨c, i⟩ := r
      cases c with
      | users => exact hw
      | posts => obtain ⟨n, rfl, hn, hcall⟩ := hw; exact ⟨n, rfl, hn.mono h, hcall⟩
      | _ => exact hw
  | delete r =>
      obtain ⟨c, i⟩ := r
      cases c with
      | posts => exact ⟨hw.1, fun hs => (hw.2 hs).imp fun u hu => ⟨hu.1, hu.2.mono h⟩⟩
      | users => exact hw
      | postLikes p => exact hw
      | _ => trivial

end

/-! ## Documents and decoding -/

section

variable {log : Log D}

theorem DocOk.written {strict : Prop} {t : Call} {w : Write} {old : Option Dictionary}
    (hold : ∀ data, old = some data → DocOk log w.ref data) (hw : WriteOk strict log t w)
    {data : Dictionary} (h : Documents.written w old = some data) : DocOk log w.ref data := by
  cases w with
  | setData r d => cases h; exact hw.doc
  | updateData r d =>
      obtain ⟨old, rfl, rfl⟩ := Option.map_eq_some_iff.mp h
      have hold := hold old rfl
      obtain ⟨c, i⟩ := r
      cases c with
      | users =>
          refine ⟨?_, hold.2⟩
          rw [List.lookup_append, show d.lookup "uid" = none from hw]
          exact hold.1
      | posts =>
          obtain ⟨n, rfl, hn, -⟩ := hw
          obtain ⟨⟨u, ha, ho⟩, -⟩ := hold
          exact ⟨⟨u, ⟨ha.1, ha.2⟩, ho⟩, n, rfl, hn⟩
      | _ => exact hw.elim
  | delete r => cases h

theorem string_of_lookup {data : Dictionary} {key s : String}
    (h : data.lookup key = some (.string s)) : data.string key = s := by
  simp [Dictionary.string, h, Value.asString]

theorem PostOk.init {p : DocId} {data : Dictionary} {now : Timestamp}
    (h : FetchedOk log ⟨.posts, p⟩ data) : PostOk log (Post.init p data now) := by
  obtain ⟨⟨⟨u, ⟨hl, hm⟩, ho⟩, n, hn, hw⟩, hp⟩ := h
  have hu : (Post.init p data now).ownerUid = u := string_of_lookup hl
  refine ⟨hp rfl, hu ▸ ho, hu ▸ hm, ?_⟩
  show Within log (data.int "likes")
  rwa [show data.int "likes" = n by simp [Dictionary.int, hn, Value.asInt]]

theorem UserOk.init {u : Uid} {data : Dictionary} (h : FetchedOk log ⟨.users, u⟩ data) :
    UserOk log (User.init data) := by
  obtain ⟨⟨hl, hm⟩, -⟩ := h
  have hu : (User.init data).uid = u := string_of_lookup hl
  rw [UserOk, hu]
  exact hm

theorem NotificationOk.init {uid id : Uid} {data : Dictionary} {now : Timestamp}
    (h : FetchedOk log ⟨.userNotifications uid, id⟩ data) :
    NotificationOk log (Notification.init data now) := by
  obtain ⟨⟨⟨u, hl, hm⟩, -⟩, -⟩ := h
  have hu : (Notification.init data now).uid = u := string_of_lookup hl
  rw [NotificationOk, hu]
  exact hm

end

/-! ## The spec -/

/-- Only sound writes; whatever is read or answered is sound. -/
def sound (strict : Prop) : Spec village D (Log D) where
  view _ log := log
  rely _ _ log log' := log <:+ log'
  loc log _ app := AppOk log app
  sees _ _ _ := True
  write log _ t w _ := WriteOk strict log t w
  ask _ _ t q handler := AskOk t q handler
  listen _ _ _ q _ := ∃ query, q = .getDocuments query
  issued log _ _ w := ∀ p data, w = .setData ⟨.posts, p⟩ data → Posted log p
  answer log _ _ q a := AnswerOk log q a
  env log _ t e := ∀ u, t.actor = some u → Owner log e.uuid u
  rely_refl _ _ _ := List.suffix_rfl
  rely_trans _ _ _ _ _ h h' := h.trans h'
  loc_stable _ _ _ _ _ h hl := hl.mono h
  write_stable _ _ _ _ _ _ h hw := hw.mono h
  ask_stable _ _ _ _ _ _ _ h := h
  listen_stable _ _ _ _ _ _ _ h := h

end

end DogVillage
