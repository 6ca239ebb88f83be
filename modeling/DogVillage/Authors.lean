import DogVillage.Bylines

/-!
# One author for an item

Several accounts may sign in on a device one after the other. The account
signed in and the user the tab controller keeps change at different times,
and what is written takes its author from both. Where whoever acts is the
user kept, and a like or a comment is completed before another account
signs in, an item's uid, name and image are those of the account that
acted, as the device read them in its document.
-/

namespace DogVillage

open Async

/-- The user whose name goes into what the action writes. A like of one's own
post notifies nobody. -/
def Action.signer (a : Action) (app : App) : Option User :=
  match a, a.op app with
  | tapLike .., .like post => if app.currentUser = some post.ownerUid then none else app.user
  | tapActionButton _, .follow _ => app.user
  | sendComment .., .comment _ => app.user
  | tapDone i _, .upload => app.uploads[i]?.bind (·.currentUser)
  | _, _ => none

/-- The operations whose completion takes the author from Auth. -/
def Op.notifies : Op → Bool
  | .like _ | .comment _ => true
  | _ => false

section

variable {D : Type}

/-- Whoever acts is the user whose name is used, and the completion of a like
or a comment runs while the account that made it is signed in, or nobody. -/
structure InOwnName [DecidableEq D] (w : World village D) (e : Event village D) : Prop where
  acts : ∀ d a user u, e = .act d a → a.signer (w.devices d).loc = some user →
    (w.devices d).loc.currentUser = some u → user.uid = u
  completes : ∀ d t u, e.Turns w d t → t.op.notifies → (w.devices d).loc.currentUser = some u →
    t.actor = some u

/-- The account that acted is the one the item names, by a name and an image
that the device has read in the account's document. -/
def OneAuthor (w : World village D) : Prop :=
  ∀ x ∈ w.log, ∀ r data res b a, x.obs = .wrote (.setData r data) res →
    byline r.collection data = some b → x.tag.actor = some a →
    b.uid = a ∧ ∃ user, ReadUser w.log x.device a user ∧ user.byline = b

/-! ## What the memory and the code come to -/

/-- Every user the memory keeps was read in their own document. -/
structure ReadApp (log : Log D) (d : D) (app : App) : Prop where
  user : ∀ user, app.user = some user → ReadUser log d user.uid user
  uploads : ∀ screen ∈ app.uploads, ∀ user, screen.currentUser = some user →
    ReadUser log d user.uid user

/-- Where the completion notifies, only the account that acted is signed in. -/
def Present (t : Call) (app : App) : Prop :=
  t.op.notifies → ∀ u, app.currentUser = some u → t.actor = some u

def ReadAnswer (log : Log D) (d : D) : (q : Ask) → q.Ans → Prop
  | .getDocument r, a => ∀ u data, r = ⟨.users, u⟩ → a = some (some data) →
      ReadUser log d u (User.init data)
  | _, _ => True

/-- An item is signed by the account that acts. -/
def SignedFor (log : Log D) (d : D) (t : Call) (wr : Write) : Prop :=
  ∀ a, t.actor = some a → Signed (ReadUser log d a) wr

/-- The spec of code on a log that ends as `log` does. -/
def naming (log : Log D) : Spec village D Unit where
  view _ _ := ()
  rely _ _ _ _ := True
  loc _ d app := ReadApp log d app
  sees _ t app := Present t app
  write _ d t wr _ := SignedFor log d t wr
  ask _ _ _ _ _ := True
  listen _ _ _ _ _ := True
  answer _ d _ q a := ReadAnswer log d q a
  env _ _ _ _ := True
  rely_refl _ _ _ := trivial
  rely_trans _ _ _ _ _ _ _ := trivial
  loc_stable _ _ _ _ _ _ h := h
  write_stable _ _ _ _ _ _ _ h := h
  ask_stable _ _ _ _ _ _ _ h := h
  listen_stable _ _ _ _ _ _ _ h := h

/-- What code of the call shows on the device. -/
def Names (log : Log D) (d : D) (t : Call) : Obs sig → Prop
  | .issued w => SignedFor log d t w
  | .wrote w _ => SignedFor log d t w
  | .changed f => (∀ app, ReadApp log d app → ReadApp log d (f app)) ∧
      ∀ app, Present t app → Present t (f app)
  | _ => True

abbrev NamingCode (log : Log D) (d : D) (t : Call) (b : Block) : Prop :=
  b.Under (fun app => ReadApp log d app ∧ Present t app) (ReadAnswer log d) (Names log d t)

variable {log : Log D} {d : D} {t : Call} {F : Part → Prop} {C : Collection → Prop} {i c : Nat}
  {b b' : Block}

theorem naming_ok (h : NamingCode log d t b) : (naming log).Ok d t b () :=
  Spec.Ok.of_under (fun _ _ hl hs => ⟨hl, hs⟩) (fun _ _ _ ha => ha) (fun _ _ _ hw => hw)
    (fun _ _ _ => trivial) (fun _ _ _ => trivial)
    (fun _ hf => ⟨fun _ => hf.1, hf.2⟩) h

theorem plain_names : Plain (Names log d t) := ⟨fun _ _ => trivial, fun _ => trivial⟩

theorem names_andThen (h : NamingCode log d t b) (h' : NamingCode log d t b') :
    NamingCode log d t (b >> b') := Code.Under.andThen h' h

theorem sends_names {w : Write} (h : SignedFor log d t w) : Sends (Names log d t) w :=
  ⟨h, fun _ => h⟩

/-- A write to a collection of no items. -/
theorem sends_nameless {w : Write} (h : ∀ data, byline w.ref.collection data = none) :
    Sends (Names log d t) w := by
  refine sends_names fun a _ => ?_
  cases w with
  | setData r data =>
      intro b hb
      have hnone : byline r.collection data = none := h data
      rw [hnone] at hb
      cases hb
  | updateData r data => trivial
  | delete r => trivial

/-- A change of other parts of the memory. -/
theorem names_only {f : App → App} (h : Only F f) (hu : t.op.notifies → ¬F .currentUser)
    (huser : ¬F .user) (hup : ¬F .uploads) : Names log d t (.changed f) := by
  refine ⟨fun app happ => ⟨?_, ?_⟩, fun app happ hn u => ?_⟩
  · rw [show (f app).user = app.user from h app _ huser]; exact happ.user
  · rw [show (f app).uploads = app.uploads from h app _ hup]; exact happ.uploads
  · rw [show (f app).currentUser = app.currentUser from h app _ (hu hn)]; exact happ hn u

theorem names_feeds {f : App → List FeedController} :
    Names log d t (.changed fun app => { app with feeds := f app }) :=
  names_only (F := Eq .feeds) (only_feeds rfl) (by simp) (by simp) (by simp)

theorem names_loader {show_ : Bool} : NamingCode log d t (showLoader show_) :=
  under_showLoader (names_only (F := Eq .hud) (only_hud rfl) (by simp) (by simp) (by simp))

/-- Code that neither writes items nor touches the users the memory keeps. -/
theorem names_of_edits (hedits : Edits F b) (htouches : Touches C b)
    (hu : t.op.notifies → ¬F .currentUser) (huser : ¬F .user) (hup : ¬F .uploads)
    (hC : ∀ k, C k → ∀ data, byline k data = none) : NamingCode log d t b :=
  under_of_edits plain_names (fun _ => trivial) hedits htouches
    (fun _ hw => sends_nameless (hC _ hw)) fun _ hf => names_only hf hu huser hup

/-! ## The actions that write items -/

theorem names_uploadNotification {uid : Uid} {user : User} {type : NotificationType}
    {post : Option Post} (hn : t.op.notifies)
    (huser : ∀ a, t.actor = some a → uid ≠ a → ReadUser log d a user) :
    NamingCode log d t (NotificationService.uploadNotification uid user type post) := by
  refine under_uploadNotification plain_names fun app v e happ hv hne => sends_names fun a ha => ?_
  have hactor : t.actor = some v := happ.2 hn v hv
  obtain rfl : a = v := Option.some.inj (ha.symm.trans hactor)
  exact signed_notice (fun _ h => h.1) rfl (huser a ha hne)

theorem names_tapLike {app : App}
    (hown : ∀ user u, (Action.tapLike i c).signer app = some user → app.currentUser = some u →
      ReadUser log d u user) :
    NamingCode log d ⟨app.currentUser, (Action.tapLike i c).op app⟩
      ((Action.tapLike i c).block.start app) := by
  have htap := likeTap i c app
  simp only [Action.signer] at hown
  generalize (Action.tapLike i c).op app = op at htap hown ⊢
  generalize (Action.tapLike i c).block.start app = b at htap ⊢
  cases htap with
  | none => trivial
  | dropped => exact ⟨names_feeds, trivial⟩
  | @unlike post user uid =>
      refine ⟨names_feeds, under_write (sends_names fun _ _ => trivial) (fun _ => trivial)
        (under_write (sends_names fun _ _ => trivial) (fun _ => under_write
          (sends_names fun _ _ => trivial) (fun e => ?_) trivial) trivial), trivial⟩
      cases e with
      | some _ => trivial
      | none => exact ⟨names_feeds, trivial⟩
  | @like post user uid _ huser huid =>
      refine ⟨names_feeds, under_write (sends_names fun _ _ => trivial) (fun _ => trivial)
        (under_write (sends_nameless fun _ => rfl) (fun _ => under_write
          (sends_nameless fun _ => rfl) (fun e => ?_) trivial) trivial), trivial⟩
      cases e with
      | some _ => trivial
      | none =>
          refine names_andThen ⟨names_feeds, trivial⟩ (names_uploadNotification rfl ?_)
          intro a ha hne
          refine hown user a ?_ ha
          have hother : app.currentUser ≠ some post.ownerUid := fun h =>
            hne (Option.some.inj (h.symm.trans ha))
          exact (if_neg hother).trans huser

theorem names_tapActionButton {app : App}
    (hown : ∀ user u, (Action.tapActionButton i).signer app = some user →
      app.currentUser = some u → ReadUser log d u user) :
    NamingCode log d ⟨app.currentUser, (Action.tapActionButton i).op app⟩
      ((Action.tapActionButton i).block.start app) := by
  have hmodify : ∀ {t f}, NamingCode log d t (ProfileController.modify i f) := fun {t f} =>
    ⟨names_only (F := Eq .profiles) (only_profiles rfl) (by simp) (by simp) (by simp), trivial⟩
  have hfeed : ∀ {t user b},
      NamingCode log d t (PostService.updateUserFeedAfterFollowing user b) :=
    under_updateUserFeedAfterFollowing plain_names fun _ _ =>
      ⟨sends_nameless fun _ => rfl, sends_nameless fun _ => rfl⟩
  have htap := profileTap i app
  simp only [Action.signer] at hown
  generalize (Action.tapActionButton i).op app = op at htap hown ⊢
  generalize (Action.tapActionButton i).block.start app = b at htap ⊢
  cases htap with
  | none => trivial
  | unfollow =>
      exact ⟨under_write (sends_nameless fun _ => rfl) (fun _ => under_write
        (sends_nameless fun _ => rfl) (fun _ => names_andThen hmodify hfeed) trivial) trivial,
        trivial⟩
  | @follow profile user currentUser uid _ _ huser huid =>
      refine ⟨under_write (sends_nameless fun _ => rfl) (fun _ => under_write
        (sends_nameless fun _ => rfl) (fun _ => names_andThen hmodify (names_andThen ?_ hfeed))
          trivial) trivial, trivial⟩
      refine under_uploadFollowNotification plain_names fun e => sends_names fun a ha => ?_
      have hread := hown currentUser a huser ha
      exact signed_notice (p := none) (fun _ h => h.1) hread.1 hread

theorem names_sendComment {comment : String} {app : App}
    (hown : ∀ user u, (Action.sendComment i comment).signer app = some user →
      app.currentUser = some u → ReadUser log d u user) :
    NamingCode log d ⟨app.currentUser, (Action.sendComment i comment).op app⟩
      ((Action.sendComment i comment).block.start app) := by
  have htap := commentTap i comment app
  simp only [Action.signer] at hown
  generalize (Action.sendComment i comment).op app = op at htap hown ⊢
  generalize (Action.sendComment i comment).block.start app = b at htap ⊢
  cases htap with
  | none => trivial
  | send _ huser =>
      refine names_andThen names_loader ⟨fun e => ⟨trivial, under_write (sends_names fun a ha => ?_)
        (fun _ => names_andThen names_loader (names_uploadNotification rfl ?_)) trivial⟩,
        trivial⟩
      · exact signed_comment (hown _ a huser ha)
      · exact fun a ha _ => hown _ a huser ha

theorem names_onUpload (e : Option FIRError) :
    NamingCode log d t (UploadPostController.onUpload e) := by
  refine names_andThen names_loader ?_
  cases e with
  | some _ => trivial
  | none =>
      refine Code.Under.get fun app _ => ?_
      cases app.tabFeed with
      | none => trivial
      | some feed =>
          exact names_of_edits (F := Eq .feeds) (C := fun _ => False) (edits_handleRefresh rfl)
            (Touches.andThen (b := FeedController.modify feed _) trivial touches_feed_fetchPosts)
            (by simp) (by simp) (by simp) fun _ h => h.elim

theorem names_tapDone {caption : String} {app : App}
    (hown : ∀ user u, (Action.tapDone i caption).signer app = some user →
      app.currentUser = some u → ReadUser log d u user) :
    NamingCode log d ⟨app.currentUser, (Action.tapDone i caption).op app⟩
      ((Action.tapDone i caption).block.start app) := by
  have htap := uploadTap i caption app
  simp only [Action.signer] at hown
  generalize (Action.tapDone i caption).op app = op at htap hown ⊢
  generalize (Action.tapDone i caption).block.start app = b at htap ⊢
  cases htap with
  | none => trivial
  | dropped => exact names_loader
  | @upload image user uid hi huid =>
      refine names_andThen names_loader ⟨under_uploadImage plain_names fun _ e => ⟨trivial,
        under_write (sends_names fun a ha => ?_) names_onUpload
          (under_updateUserFeedAfterPost plain_names fun _ => sends_nameless fun _ => rfl)⟩, trivial⟩
      have hsigner : app.uploads[i]?.bind (·.currentUser) = some user := by rw [hi]; rfl
      exact signed_post (fun _ h => h.1) (Option.some.inj (huid.symm.trans ha))
        (hown user a hsigner ha)

/-! ## The actions that change the users the memory keeps -/

theorem names_setUser (hn : ¬t.op.notifies) {user : User} (huser : ReadUser log d user.uid user) :
    NamingCode log d t (MainTabController.setUser user) := by
  refine ⟨⟨fun app happ => ⟨fun x hx => ?_, happ.uploads⟩, fun _ _ h => absurd h hn⟩, trivial⟩
  cases hx
  exact huser

theorem names_tab_fetchUser (hn : ¬t.op.notifies) :
    NamingCode log d t MainTabController.fetchUser := by
  refine under_fetchUser plain_names fun app uid data _ _ ha => names_setUser hn ?_
  have hread : ReadUser log d uid (User.init data) := ha uid data rfl rfl
  rw [hread.1]
  exact hread

theorem names_currentUser (hn : ¬t.op.notifies) {f : App → Option Uid} :
    Names log d t (.changed fun app => { app with currentUser := f app }) :=
  names_only (F := Eq .currentUser) (only_currentUser rfl) (fun h => absurd h hn) (by simp) (by simp)

theorem names_handleLogin (hn : ¬t.op.notifies) {email password : String} :
    NamingCode log d t (LoginController.handleLogin email password) := by
  refine names_andThen names_loader
    (under_signIn plain_names (fun _ _ => names_currentUser hn) fun r _ => ?_)
  cases r with
  | error e => exact names_loader
  | ok v => exact names_andThen names_loader (names_tab_fetchUser hn)

theorem names_handleSignUp (hn : ¬t.op.notifies) {email password fullname username : String}
    {image : UIImage} :
    NamingCode log d t
      (RegisterationController.handleSignUp email password fullname username image) := by
  refine names_andThen names_loader (under_registerUser plain_names
    (fun _ _ => names_currentUser hn) (fun _ _ => sends_nameless fun _ => rfl) fun e => ?_)
  cases e with
  | some _ => exact names_loader
  | none => exact names_andThen names_loader (names_tab_fetchUser hn)

theorem names_deleteAccount (hn : ¬t.op.notifies) :
    NamingCode log d t EditProfileContrller.yesAction :=
  names_andThen names_loader (names_andThen
    (under_deletaUser plain_names (fun _ => names_currentUser hn)
      fun _ _ => sends_names fun _ _ => trivial) names_loader)

theorem names_answerAlert {k : Nat} {yes : Bool} :
    NamingCode log d t (FeedController.answerAlert k yes) := by
  refine Code.Under.get fun app _ => ?_
  cases app.alerts[k]? with
  | none => trivial
  | some x =>
      refine ⟨names_only (F := Eq .alerts) (only_alerts rfl) (by simp) (by simp) (by simp), ?_⟩
      split
      · exact names_andThen names_loader
          (names_andThen (under_removePost (sends_names fun _ _ => trivial)) names_loader)
      · trivial

theorem signer_read {a : Action} {app : App} {user : User} (happ : ReadApp log d app)
    (h : a.signer app = some user) : ReadUser log d user.uid user := by
  unfold Action.signer at h
  split at h
  · split at h
    · cases h
    · exact happ.user user h
  · exact happ.user user h
  · exact happ.user user h
  · obtain ⟨screen, hscreen, huser⟩ := Option.bind_eq_some_iff.mp h
    exact happ.uploads screen (List.mem_of_getElem? hscreen) user huser
  · cases h

/-- Whatever the user does in their own name. -/
theorem inOwnName_action {a : Action} {app : App} (happ : ReadApp log d app)
    (hown : ∀ user u, a.signer app = some user → app.currentUser = some u → user.uid = u) :
    NamingCode log d ⟨app.currentUser, a.op app⟩ (a.block.start app) := by
  have start : ∀ {b : Block}, NamingCode log d ⟨app.currentUser, a.op app⟩ b →
      NamingCode log d ⟨app.currentUser, a.op app⟩ (b.start app) := fun h =>
    h.start (fun f hf l hl => ⟨hf.1 l hl.1, hf.2 l hl.2⟩) ⟨happ, fun _ _ hu => hu⟩
  have hread : ∀ user u, a.signer app = some user → app.currentUser = some u →
      ReadUser log d u user := by
    intro user u hsigner hu
    obtain rfl := hown user u hsigner hu
    exact signer_read happ hsigner
  cases a with
  | tapLike i c => exact names_tapLike hread
  | tapActionButton i => exact names_tapActionButton hread
  | sendComment i comment => exact names_sendComment hread
  | tapDone i caption => exact names_tapDone hread
  | answerAlert k yes => exact start names_answerAlert
  | tabDidLoad => exact start (names_tab_fetchUser (by nofun))
  | login email password => exact start (names_handleLogin (by nofun))
  | signUp email password fullname username image => exact start (names_handleSignUp (by nofun))
  | logout => exact start ⟨names_currentUser (by nofun), trivial⟩
  | deleteAccount => exact start (names_deleteAccount (by nofun))
  | didFinishPicking image =>
      refine start ⟨⟨fun app happ => ⟨happ.user, fun screen hs user hu => ?_⟩, fun _ h => h⟩, trivial⟩
      rcases List.mem_append.mp hs with hs | hs
      · exact happ.uploads screen hs user hu
      · rw [List.mem_singleton.mp hs] at hu
        exact happ.user user hu
  | _ =>
      -- the others write no item and keep the users
      refine names_of_edits ((edits_action fun _ h => h).start (fun _ _ _ _ => trivial) trivial)
        (touches_action _ app) (by simp [Action.edits]) (by simp [Action.edits])
        (by simp [Action.edits]) fun k hk data => ?_
      cases k <;> first | rfl | cases hk

end

/-! ## Runs -/

section

variable {D : Type} [DecidableEq D] {w w' : World village D} {e : Event village D} {d : D}

/-- What is answered when an account's document is read. -/
theorem readAnswer_of_run {ok : World village D → Event village D → Prop} {log : Log D}
    (hrun : Run ok emptyWorld w) (hs : Stepped w e w') {t : Call} {q : Ask} {a : q.Ans}
    {srv : Server} (hans : e.Answers w d t q a srv) (hlog : w'.log <:+ log) :
    ReadAnswer log d q a := by
  cases q with
  | getDocument r =>
      rintro u data rfl rfl
      have hfetched := (sound_of_run hrun).answer_step hs hans data rfl
      have hread : (⟨d, t, .answered (.getDocument ⟨.users, u⟩) (some (some data))⟩ :
          Entry village D) ∈ w'.log := (hans.step hs).1 ▸ List.mem_cons_self
      exact ⟨string_of_lookup hfetched.1.1, _, hlog.subset hread, rfl, data, rfl, rfl⟩
  | _ => trivial

omit [DecidableEq D] in
theorem SignedFor.mono {log log' : Log D} (h : log <:+ log') {t : Call} {wr : Write}
    (hw : SignedFor log d t wr) : SignedFor log' d t wr := by
  intro a ha
  have hsigned := hw a ha
  cases wr with
  | setData r data =>
      intro b hb
      obtain ⟨user, ⟨huid, x, hx, hread⟩, rfl⟩ := hsigned b hb
      exact ⟨user, ⟨huid, x, h.subset hx, hread⟩, rfl⟩
  | updateData r data => trivial
  | delete r => trivial

/-- Everything outstanding names the account that acted. -/
theorem naming_of_run (hrun : Run InOwnName emptyWorld w) : (naming w.log).Inv w := by
  refine hrun.inv_within (fun w₁ : World village D => (naming w.log).Inv w₁) ?_ ?_
  · exact ⟨fun d => by constructor <;> simp [emptyWorld],
      fun d => by constructor <;> simp [emptyWorld, Device.jobs]⟩
  · rintro w₁ e w₂ hrun₁ hinv hok hs hlog
    refine hinv.step hs (fun _ _ _ => trivial) (fun _ _ h => h) (fun d a he => ?_)
      (fun d t hturn hn u hu => hok.completes d t u hturn hn hu) (fun _ _ _ _ => trivial)
      (fun _ _ _ _ => trivial) fun d t q a srv hans => readAnswer_of_run hrun₁ hs hans hlog
    exact naming_ok (inOwnName_action (hinv.loc d) fun user u hsigner hu =>
      hok.acts d a user u he hsigner hu)

/-- In a run of acts in one's own name, completed before another account
signs in, every item written has one author, the account that acted. -/
theorem oneAuthor_of_run (hrun : Run InOwnName emptyWorld w) : OneAuthor w := by
  suffices ∀ x ∈ w.log, ∀ wr res, x.obs = .wrote wr res → SignedFor w.log x.device x.tag wr by
    intro x hx r data res b a ho hb ha
    obtain ⟨user, hread, rfl⟩ := this x hx _ _ ho a ha b hb
    exact ⟨hread.1, user, hread, rfl⟩
  induction hrun with
  | refl => exact fun x hx => by cases hx
  | @step w w' e hrun _ hstep ih =>
      intro x hx wr res ho
      have hs := stepped_of_step hstep
      rcases wrote_of_step hs hx ho with hx | ⟨fail, m, ms, -, hw, ht, rfl, -⟩
      · exact (ih x hx wr res ho).mono hs.log
      · have hm := ((naming_of_run hrun).held x.device).writes m (by rw [hw]; exact List.mem_cons_self)
        rw [← ht]
        exact SignedFor.mono hs.log hm.1

end

/-- Everything is answered, and what is done on the one device is done in
one's own name. -/
def ownNameTest (w : World village Unit) : Event village Unit → Bool
  | .act _ a => (a.signer (w.devices ()).loc).all fun user =>
      (w.devices ()).loc.currentUser.all (user.uid == ·)
  | _ => (w.devices ()).jobs.all fun j =>
      !j.tag.op.notifies || (w.devices ()).loc.currentUser.all (j.tag.actor == some ·)

theorem inOwnName_of_test {w : World village Unit} {e : Event village Unit}
    (h : ownNameTest w e = true) : InOwnName w e where
  acts d a user u he hsigner hu := by
    subst he
    simpa [ownNameTest, hsigner, hu] using h
  completes d t u hturn hn hu := by
    have hjob : ∀ j ∈ (w.devices ()).jobs, j.tag = t →
        (∀ j ∈ (w.devices ()).jobs, (!j.tag.op.notifies ||
          (w.devices ()).loc.currentUser.all (j.tag.actor == some ·)) = true) →
        t.actor = some u := by
      rintro j hj rfl hall
      simpa [hn, hu] using hall j hj
    cases hturn with
    | @next d j js hin =>
        refine hjob j ?_ rfl (List.all_eq_true.mp h)
        exact List.mem_append_left _ (List.mem_append_right _ (hin ▸ List.mem_cons_self))
    | @run d s v j dev htake =>
        refine hjob j ?_ rfl (List.all_eq_true.mp h)
        exact (Device.take_jobs htake).symm.subset List.mem_cons_self

/-- Alice comments on her own post. -/
def commented : World village Unit :=
  emptyWorld
    |> smooth.perform () (.signUp "alice@dog.kr" "secret" "Alice" "alice" ⟨some []⟩) 100
    |> smooth.perform () (.didFinishPicking ⟨some []⟩) 100
    |> smooth.perform () (.tapDone 0 "walk") 100
    |> smooth.perform () (.feedDidLoad 0) 100
    |> smooth.perform () (.feedCell 0 0 0) 100
    |> smooth.perform () (.tapComment 0 0) 100
    |> smooth.perform () (.sendComment 0 "good dog") 100

theorem commented_reached : Run InOwnName emptyWorld commented := by
  unfold commented
  iterate 7
    refine Policy.run_checks (fun _ _ h => inOwnName_of_test h) (by decide) ?_
  exact .refl

/-- She signs out, and Bob registers on her device and comments too. -/
def bothCommented : World village Unit :=
  commented
    |> smooth.perform () .logout 100
    |> smooth.perform () (.signUp "bob@dog.kr" "secret" "Bob" "bob" ⟨some []⟩) 100
    |> smooth.perform () (.feedDidLoad 1) 100
    |> smooth.perform () (.feedCell 1 0 0) 100
    |> smooth.perform () (.tapComment 1 0) 100
    |> smooth.perform () (.sendComment 1 "mine too") 100

theorem bothCommented_reached : Run InOwnName emptyWorld bothCommented := by
  unfold bothCommented
  iterate 6
    refine Policy.run_checks (fun _ _ h => inOwnName_of_test h) (by decide) ?_
  exact commented_reached

theorem oneAuthor_bothCommented :
    (bothCommented.server.docs.get ⟨.comments "n3", "n6"⟩).map (Dictionary.string · "uid") =
        some "n1" ∧
      (bothCommented.server.docs.get ⟨.comments "n3", "n10"⟩).map (Dictionary.string · "uid") =
        some "n8" ∧
      OneAuthor bothCommented :=
  ⟨by decide, by decide, oneAuthor_of_run bothCommented_reached⟩

/-- Alice has signed out and Bob has registered on her device. His user has
been asked for, and the answer is yet to come: Alice's feed is still there. -/
def bobUnread : World village Unit :=
  commented
    |> smooth.perform () .logout 100
    |> smooth.perform () (.signUp "bob@dog.kr" "secret" "Bob" "bob" ⟨some []⟩) 29

/-- He opens the comments of her post there, and sends one. -/
def bobCommented : World village Unit :=
  bobUnread
    |> smooth.perform () (.tapComment 0 0) 2
    |> smooth.perform () (.sendComment 1 "mine too") 9

/-- What he writes carries Alice's uid and name. -/
theorem bobCommented_as_alice :
    Run (fun _ _ => True) emptyWorld bobCommented ∧ ¬ OneAuthor bobCommented := by
  constructor
  · unfold bobCommented bobUnread
    iterate 4 refine Policy.run_perform (fun _ _ _ => trivial) trivial ?_
    exact commented_reached.mono fun _ _ _ => trivial
  · intro h
    have hwrote := h ⟨(), ⟨some "n8", .comment "n3"⟩, _⟩ (List.mem_cons_of_mem _ List.mem_cons_self)
      ⟨.comments "n3", "n9"⟩ _ none aliceByline "n8" rfl rfl rfl
    exact absurd hwrote.1 (by decide)

end DogVillage
