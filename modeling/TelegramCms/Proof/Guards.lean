import TelegramCms.Lib.Transition
import TelegramCms.Model.Router
import TelegramCms.Proof.Catalog
import TelegramCms.Proof.Channels
import TelegramCms.Proof.Sessions

/-!
# What a role is good for

`Resource.writer` says whose the tables are. No run changes a table unless a request was let
in for an account that had the role then, whatever tokens are about; and what the events of a
post say of their actor is true of every run.
-/

namespace TelegramCms

open Transition

/-! ## The policy -/

/-- The tables that the Go API alone writes. -/
inductive Resource where
  | catalog
  | accounts
deriving DecidableEq, Repr

def Resource.writer : Resource → Role
  | .catalog => .admin
  | .accounts => .superAdmin

def Resource.Same : Resource → Site → Site → Prop
  | .catalog, s, s' => s'.db.tags = s.db.tags ∧ s'.db.templates = s.db.templates
      ∧ s'.db.channels = s.db.channels ∧ s'.db.sourceChannelTags = s.db.sourceChannelTags
  | .accounts, s, s' => s'.admins = s.admins

theorem Resource.Same.refl (ρ : Resource) (s : Site) : ρ.Same s s := by
  cases ρ
  · exact ⟨rfl, rfl, rfl, rfl⟩
  · rfl

theorem Resource.Same.trans {ρ : Resource} {s t u : Site} (h : ρ.Same s t) (h' : ρ.Same t u) :
    ρ.Same s u := by
  cases ρ with
  | catalog =>
      exact ⟨h'.1.trans h.1, h'.2.1.trans h.2.1, h'.2.2.1.trans h.2.2.1, h'.2.2.2.trans h.2.2.2⟩
  | accounts => exact Eq.trans h' h

/-! ## The handlers -/

/-- What holds of the site, and of every site that the handler leaves, holds after it. -/
theorem reply_of {P : Site → Prop} {s : Site} {status : Nat} {x : Except HttpAnswer Site} (hs : P s)
    (hx : ∀ s', x = .ok s' → P s') : P (s.reply status x).1 := by
  cases x with
  | error a => exact hs
  | ok s' => exact hx s' rfl

/-- The same of a decision. -/
theorem replyEnqueued_of {P : Site → Prop} {s : Site} {x : Except HttpAnswer (Site × Enqueue)}
    (hs : P s) (hx : ∀ y, x = .ok y → P y.1) : P (s.replyEnqueued x).1 := by
  cases x with
  | error a => exact hs
  | ok y =>
      obtain ⟨s', e⟩ := y
      cases e <;> exact hx _ rfl

/-- The same of a transaction. -/
theorem transact_of {P : Site → Prop} {s : Site} {x : Except HttpAnswer Db}
    (hx : ∀ db, x = .ok db → P { s with db := db }) : ∀ s', s.transact x = .ok s' → P s' := by
  intro s' h
  cases x with
  | error a => cases h
  | ok db =>
      obtain rfl := Except.ok.inj h
      exact hx db rfl

section Editor

variable {env : ApiEnv} {s s' : Site} {postId actor : Nat}

/-- A handler for editors: one post, and events of its actor. -/
def Edited (env : ApiEnv) (s : Site) (postId actor : Nat) (s' : Site) : Prop :=
  ∃ posts events queue,
    s' = { s with
      db := { s.db with posts := posts, events := s.db.events ++ events }, queue := queue }
    ∧ ∀ e ∈ events, e.postId = postId ∧ e.actorAdminId = some actor ∧ e.createdAt = env.now

theorem Edited.refl : Edited env s postId actor s :=
  ⟨s.db.posts, [], s.queue, by rw [List.append_nil], by simp⟩

/-- The commit of a decision writes one row and one event, for whoever decides. -/
theorem commitDecision_edited (post : Post) (d : Decision) (tagIds : Option (List Int))
    (queue : List Job) :
    Edited env s postId actor
      { Go.commitDecision env s postId actor post d tagIds with queue := queue } := by
  refine ⟨_, _, _, rfl, ?_⟩
  intro e he
  obtain rfl := List.mem_singleton.mp he
  exact ⟨rfl, rfl, rfl⟩

/-- And the job that it enqueues is all it does besides. -/
theorem decide_edited {action : Verdict} {tagIds : Option (List Int)} {scheduledFor : Option Time}
    {y : Site × Enqueue} (h : Go.decide env s postId actor action tagIds scheduledFor = .ok y) :
    Edited env s postId actor y.1 := by
  rw [Go.decide.eq_def] at h
  split at h
  · cases h
  · rename_i post _
    cases action with
    | approve =>
        obtain rfl := Except.ok.inj h
        exact commitDecision_edited post _ _ _
    | schedule =>
        dsimp only at h
        split at h
        · cases h
        · split at h
          · cases h
          · obtain rfl := Except.ok.inj h
            exact commitDecision_edited post _ _ _
    | reject =>
        obtain rfl := Except.ok.inj h
        exact commitDecision_edited post _ _ _

/-- The tags of the one post, and an event for whoever sets them. -/
theorem editTags_edited {body : Text} (h : Go.handleEditTags env s postId actor body = .ok s') :
    Edited env s postId actor s' := by
  unfold Go.handleEditTags at h
  split at h
  · cases h
  · dsimp only at h
    split at h
    · cases h
    · split at h
      · cases h
      · obtain rfl := Except.ok.inj h
        refine ⟨_, _, _, rfl, ?_⟩
        intro e he
        obtain rfl := List.mem_singleton.mp he
        exact ⟨rfl, rfl, rfl⟩

/-! The three handlers that decide do so at their end, and nothing before it succeeds. -/

theorem handleDecision_decide {body : Text} {y : Site × Enqueue}
    (h : Go.handleDecision env s postId actor body = .ok y) :
    ∃ action tagIds t, Go.decide env s postId actor action tagIds t = .ok y := by
  unfold Go.handleDecision at h
  dsimp only at h
  split at h
  · cases h
  · split at h
    · cases h
    · exact ⟨_, _, _, h⟩

theorem handleSchedule_decide {body : Text} {y : Site × Enqueue}
    (h : Go.handleSchedule env s postId actor body = .ok y) :
    ∃ action tagIds t, Go.decide env s postId actor action tagIds t = .ok y := by
  unfold Go.handleSchedule at h
  dsimp only at h
  split at h
  · cases h
  · exact ⟨_, _, _, h⟩

theorem handleApprove_decide {body : Text} {y : Site × Enqueue}
    (h : Go.handleApprove env s postId actor body = .ok y) :
    ∃ action tagIds t, Go.decide env s postId actor action tagIds t = .ok y := by
  unfold Go.handleApprove at h
  exact ⟨_, _, _, h⟩

theorem handleReject_decide {y : Site × Enqueue}
    (h : Go.handleReject s env postId actor = .ok y) :
    ∃ action tagIds t, Go.decide env s postId actor action tagIds t = .ok y :=
  ⟨_, _, _, h⟩

theorem decided_edited {y : Site × Enqueue}
    (h : ∃ action tagIds t, Go.decide env s postId actor action tagIds t = .ok y) :
    Edited env s postId actor y.1 := by
  obtain ⟨action, tagIds, t, h⟩ := h
  exact decide_edited h

end Editor

/-- **The routes of the editors** touch one post each, the one on their path. -/
theorem handle_editor (env : ApiEnv) (s : Site) (actor : Nat) (body : Text) {w : WriteRoute}
    (h : w.min = .editor) :
    ∃ postId, w.post = some postId ∧ Edited env s postId actor (s.handle env actor body w).1 := by
  cases w <;> cases h
  case editTags p => exact ⟨p, rfl, reply_of .refl fun _ => editTags_edited⟩
  case decision p =>
    exact ⟨p, rfl, replyEnqueued_of .refl fun _ h => decided_edited (handleDecision_decide h)⟩
  case approve p =>
    exact ⟨p, rfl, replyEnqueued_of .refl fun _ h => decided_edited (handleApprove_decide h)⟩
  case schedule p =>
    exact ⟨p, rfl, replyEnqueued_of .refl fun _ h => decided_edited (handleSchedule_decide h)⟩
  case reject p =>
    exact ⟨p, rfl, replyEnqueued_of .refl fun _ h => decided_edited (handleReject_decide h)⟩

section Catalog

variable {env : ApiEnv} {s s' : Site} {body : Text}

/-- A handler for admins: the database, to whose events it adds none. -/
def Curated (s s' : Site) : Prop := ∃ db, s' = { s with db := db } ∧ db.events ⊆ s.db.events

theorem Curated.refl : Curated s s := ⟨s.db, rfl, fun _ h => h⟩

/-- A transaction that adds no events. -/
theorem curated_of {db : Db} (h : db.events ⊆ s.db.events) : Curated s { s with db := db } :=
  ⟨db, rfl, h⟩

theorem curated_of_eq {db : Db} (h : db.events = s.db.events) : Curated s { s with db := db } :=
  curated_of (by rw [h]; exact fun _ he => he)

/-- The links of a channel are no events. -/
theorem setDefaultTagLinks_events {db db' : Db} {id : Nat} {ids : List Int}
    (h : db.setDefaultTagLinks id ids = .ok db') : db'.events = db.events := by
  rw [(setDefaultTagLinks_ok h).1]

theorem patchChannel_events {db db' : Db} {c : SourceChannel} {p : ChannelPatch}
    (h : db.patchChannel c p = .ok db') : db'.events = db.events := by
  unfold Db.patchChannel at h
  split at h
  · cases h
  · split at h
    · obtain rfl := Except.ok.inj h
      rfl
    · exact (setDefaultTagLinks_events h).trans rfl

theorem createChannel_events {db db' : Db} {id : Nat} {tg : Int} {p : ChannelPatch}
    (h : db.createChannel id tg p = .ok db') : db'.events = db.events := by
  unfold Db.createChannel at h
  dsimp only at h
  split at h
  · split at h
    · cases h
    · split at h
      · cases h
      · exact (setDefaultTagLinks_events h).trans rfl
  · cases h

theorem createTag_events {db db' : Db} {id : Nat} {slug label : Text} {color : Option Text}
    (h : db.createTag id slug label color = .ok db') : db'.events = db.events := by
  unfold Db.createTag at h
  split at h
  · split at h
    · cases h
    · obtain rfl := Except.ok.inj h
      rfl
  · cases h

theorem createTag_curated (h : Go.handleCreateTag env s body = .ok s') : Curated s s' := by
  unfold Go.handleCreateTag at h
  dsimp only at h
  split at h
  · cases h
  · split at h
    · cases h
    · exact transact_of (fun _ hdb => curated_of_eq (createTag_events hdb)) _ h

theorem updateTag_curated {id : Nat} (h : Go.handleUpdateTag s id body = .ok s') : Curated s s' := by
  unfold Go.handleUpdateTag at h
  split at h
  · cases h
  · dsimp only at h
    split at h
    · cases h
    · split at h
      · obtain rfl := Except.ok.inj h
        exact .refl
      · split at h
        · cases h
        · obtain rfl := Except.ok.inj h
          exact curated_of (fun _ he => he)

/-- Deletions go along foreign keys, and no event refers to a tag. -/
theorem deleteTag_curated {id : Nat} (h : Go.handleDeleteTag s id = .ok s') : Curated s s' := by
  unfold Go.handleDeleteTag at h
  split at h
  · cases h
  · obtain rfl := Except.ok.inj h
    exact curated_of (fun _ he => he)

theorem createTemplate_curated (h : Go.handleCreateTemplate s body = .ok s') : Curated s s' := by
  unfold Go.handleCreateTemplate at h
  dsimp only at h
  split at h
  · cases h
  · split at h
    · obtain rfl := Except.ok.inj h
      exact curated_of (fun _ he => he)
    · cases h

theorem updateTemplate_curated {id : Nat} (h : Go.handleUpdateTemplate s id body = .ok s') :
    Curated s s' := by
  unfold Go.handleUpdateTemplate at h
  split at h
  · cases h
  · dsimp only at h
    split at h
    · cases h
    · split at h
      · obtain rfl := Except.ok.inj h
        exact .refl
      · split at h
        · cases h
        · obtain rfl := Except.ok.inj h
          exact curated_of (fun _ he => he)

/-- The channels lose their template, and nothing else refers to it. -/
theorem deleteTemplate_curated {id : Nat} (h : Go.handleDeleteTemplate s id = .ok s') :
    Curated s s' := by
  unfold Go.handleDeleteTemplate at h
  split at h
  · cases h
  · obtain rfl := Except.ok.inj h
    exact curated_of (fun _ he => he)

theorem createChannel_curated (h : Go.handleCreateChannel env s body = .ok s') : Curated s s' := by
  unfold Go.handleCreateChannel at h
  dsimp only at h
  split at h
  · cases h
  · split at h
    · cases h
    · exact transact_of (fun _ hdb => curated_of_eq (createChannel_events hdb)) _ h

/-- Whatever `handleUpdateChannel` answers, it has written no event. -/
theorem updateChannel_curated {id : Nat} {b : Option Json} :
    Curated s { s with db := (handleUpdateChannel s.db id b).1 } := by
  refine curated_of ?_
  rw [handleUpdateChannel.eq_def]
  split
  · exact fun _ he => he
  · split
    · exact fun _ he => he
    · split
      · exact fun _ he => he
      · split
        · exact fun _ he => he
        · rename_i c _ _ body _ _ _
          cases hpatch : s.db.patchChannel c body.channelSets with
          | error a => exact fun _ he => he
          | ok db => exact fun _ he => patchChannel_events hpatch ▸ he

theorem updateAISettings_curated {id : Nat} (h : Go.handleUpdateAISettings s id body = .ok s') :
    Curated s s' := by
  unfold Go.handleUpdateAISettings at h
  split at h
  · cases h
  · split at h
    · cases h
    · split at h
      · obtain rfl := Except.ok.inj h
        exact .refl
      · exact transact_of (fun _ hdb => curated_of_eq (patchChannel_events hdb)) _ h

/-- The posts of a channel that is deleted take their events along. -/
theorem deleteChannel_curated {id : Nat} (h : Go.handleDeleteChannel s id = .ok s') :
    Curated s s' := by
  unfold Go.handleDeleteChannel at h
  split at h
  · cases h
  · split at h
    · cases h
    · obtain rfl := Except.ok.inj h
      exact curated_of (fun _ he => (List.mem_filter.mp he).1)

end Catalog

/-- **The routes of the admins** add no event; a deleted channel takes those of its posts along. -/
theorem handle_admin (env : ApiEnv) (s : Site) (actor : Nat) (body : Text) {w : WriteRoute}
    (h : w.min = .admin) : Curated s (s.handle env actor body w).1 := by
  cases w <;> cases h
  case createTag => exact reply_of .refl fun _ => createTag_curated
  case updateTag id => exact reply_of .refl fun _ => updateTag_curated
  case deleteTag id => exact reply_of .refl fun _ => deleteTag_curated
  case createTemplate => exact reply_of .refl fun _ => createTemplate_curated
  case updateTemplate id => exact reply_of .refl fun _ => updateTemplate_curated
  case deleteTemplate id => exact reply_of .refl fun _ => deleteTemplate_curated
  case createChannel => exact reply_of .refl fun _ => createChannel_curated
  case updateChannel id => exact updateChannel_curated
  case deleteChannel id => exact reply_of .refl fun _ => deleteChannel_curated
  case updateAISettings id => exact reply_of .refl fun _ => updateAISettings_curated

section Accounts

variable {env : ApiEnv} {s s' : Site} {body : Text}

/-- A handler for super-admins. -/
def Staffed (s s' : Site) : Prop := ∃ admins, s' = { s with admins := admins }

theorem Staffed.refl : Staffed s s := ⟨s.admins, rfl⟩

theorem createAdmin_staffed (h : Go.handleCreateAdmin env s body = .ok s') : Staffed s s' := by
  unfold Go.handleCreateAdmin at h
  dsimp only at h
  split at h
  · cases h
  · split at h
    · cases h
    · split at h
      · cases h
      · obtain rfl := Except.ok.inj h
        exact ⟨_, rfl⟩

theorem updateAdmin_staffed {id : Nat} (h : Go.handleUpdateAdmin env s id body = .ok s') :
    Staffed s s' := by
  unfold Go.handleUpdateAdmin at h
  dsimp only at h
  split at h
  · cases h
  · split at h
    · cases h
    · split at h
      · cases h
      · split at h
        · cases h
        · split at h
          · cases h
          · split at h
            · cases h
            · split at h
              · cases h
              · split at h
                · cases h
                · split at h
                  · obtain rfl := Except.ok.inj h
                    exact .refl
                  · split at h
                    · cases h
                    · obtain rfl := Except.ok.inj h
                      exact ⟨_, rfl⟩

end Accounts

/-- **The routes of the super-admins** write no table but that of the accounts. -/
theorem handle_superAdmin (env : ApiEnv) (s : Site) (actor : Nat) (body : Text) {w : WriteRoute}
    (h : w.min = .superAdmin) : Staffed s (s.handle env actor body w).1 := by
  cases w <;> cases h
  case createAdmin => exact reply_of .refl fun _ => createAdmin_staffed
  case updateAdmin id => exact reply_of .refl fun _ => updateAdmin_staffed

/-- A route that asks for less than the writer of a table leaves it as it is. -/
theorem handle_same {env : ApiEnv} {s : Site} {actor : Nat} {body : Text} {w : WriteRoute}
    {ρ : Resource} (h : w.min.rank < ρ.writer.rank) :
    ρ.Same s (s.handle env actor body w).1 := by
  cases hmin : w.min with
  | editor =>
      obtain ⟨_, -, posts, events, queue, hs, -⟩ :=
        handle_editor env s actor body hmin
      rw [hs]
      cases ρ
      · exact ⟨rfl, rfl, rfl, rfl⟩
      · rfl
  | admin =>
      obtain ⟨db, hs, -⟩ := handle_admin env s actor body hmin
      rw [hmin] at h
      rw [hs]
      cases ρ
      · exact absurd h (Nat.lt_irrefl _)
      · rfl
  | superAdmin =>
      rw [hmin] at h
      cases ρ <;> exact absurd h (by decide)

/-- No other route writes that table. -/
theorem handle_admins {env : ApiEnv} {s : Site} {actor : Nat} {body : Text} {w : WriteRoute}
    (h : w.min.rank < Role.superAdmin.rank) : (s.handle env actor body w).1.admins = s.admins :=
  handle_same (ρ := .accounts) h

/-! ## Runs -/

namespace Backend

variable {J : Jwt} {A : Argon2} {cfg : AuthConfig} {b b' : Backend}

/-- Who is let in under one role is let in under a lower one. -/
theorem admits_mono {min min' : Role} {r : HttpRequest} {admin : Admin}
    (hle : min'.rank ≤ min.rank) (h : b.admits J cfg min r = .ok admin) :
    b.admits J cfg min' r = .ok admin := by
  rw [admits, Go.requireRole] at h ⊢
  split at h
  · cases h
  · rename_i hne
    rw [if_neg hne]
    rw [authorize.eq_def] at h ⊢
    split at h
    · cases h
    · split at h
      · cases h
      · rename_i htype
        split at h
        · cases h
        · rename_i a _
          simp only [if_neg htype]
          split at h
          · rename_i hrole
            -- the role is the only check that depends on it
            have hrole' : roleAtLeast a.role min' = true := by
              rw [roleAtLeast, decide_eq_true_eq] at hrole ⊢
              omega
            rw [if_pos hrole']
            exact h
          · cases h

/-- A request changes the site only through the handler of a route, for the admin that the
route lets in. -/
theorem serve_site (J : Jwt) (A : Argon2) (cfg : AuthConfig) (b : Backend) (r : HttpRequest) :
    (b.serve J A cfg r).1.site = b.site
      ∨ ∃ w admin, r.route = .write w ∧ b.admits J cfg w.min r = .ok admin
        ∧ (b.serve J A cfg r).1.site = (b.site.handle (b.apiEnv r) admin.id r.body w).1 := by
  rw [serve]
  split
  · rw [login]
    split <;> exact .inl rfl
  · rw [refresh]
    split
    · exact .inl rfl
    · split
      · exact .inl rfl
      · split
        · exact .inl rfl
        · split <;> exact .inl rfl
  · exact .inl rfl
  · split <;> exact .inl rfl
  · rename_i w hroute
    split
    · exact .inl rfl
    · rename_i admin hadmits
      exact .inr ⟨w, admin, hroute, hadmits, rfl⟩

/-- The step is a request that is let in under the role. -/
def LetIn (J : Jwt) (cfg : AuthConfig) (min : Role) (b : Backend) (a : BackendAction) : Prop :=
  ∃ r admin, a = .request r ∧ b.admits J cfg min r = .ok admin

/-- **One step** that lets no such request in leaves the tables as they are: the clock and the
services touch none of them, and a handler writes the tables of its own role only. -/
theorem step_same {ρ : Resource} {a : BackendAction} (h : ¬ LetIn J cfg ρ.writer b a)
    (hstep : b.step J A cfg a = some b') : ρ.Same b.site b'.site := by
  cases a with
  | tick d =>
      obtain rfl := Option.some.inj hstep
      exact .refl ρ _
  | work posts events dedupe queue =>
      rw [step] at hstep
      split at hstep
      · obtain rfl := Option.some.inj hstep
        cases ρ
        · exact ⟨rfl, rfl, rfl, rfl⟩
        · rfl
      · cases hstep
  | request r =>
      obtain rfl := Option.some.inj hstep
      rcases serve_site J A cfg b r with hsite
        | ⟨w, admin, -, hadmits, hsite⟩
      · rw [hsite]
        exact .refl ρ _
      · rw [hsite]
        refine handle_same ?_
        by_contra hle
        exact h ⟨r, admin, rfl, admits_mono (by omega) hadmits⟩

/-! ### Alice creates a tag and approves a post -/

/-- A request that is let in is served by the handler of its route. -/
theorem serve_write {r : HttpRequest} {w : WriteRoute} {admin : Admin}
    (hroute : r.route = .write w) (hadmits : b.admits J cfg w.min r = .ok admin) :
    b.serve J A cfg r
      = ({ b with site := (b.site.handle (b.apiEnv r) admin.id r.body w).1 },
          some ⟨(b.site.handle (b.apiEnv r) admin.id r.body w).2, none, false⟩) := by
  rw [serve, hroute]
  simp only [hadmits]

theorem serve_write_fst {r : HttpRequest} {w : WriteRoute} {admin : Admin}
    (hroute : r.route = .write w) (hadmits : b.admits J cfg w.min r = .ok admin) :
    (b.serve J A cfg r).1
      = { b with site := (b.site.handle (b.apiEnv r) admin.id r.body w).1 } := by
  rw [serve_write hroute hadmits]

def aliceTag : HttpRequest :=
  aliceRequest (.write .createTag) "\x7b\"slug\":\"news\",\"label\":\"News\"\x7d".toList

def aliceApprove : HttpRequest := aliceRequest (.write (.approve 7)) "\x7b\x7d".toList

def aliceTagged : Backend :=
  { aliceIn with
    site := (aliceIn.site.handle (aliceIn.apiEnv aliceTag) alice.id aliceTag.body .createTag).1 }

def aliceApproved : Backend :=
  { aliceTagged with
    site := (aliceTagged.site.handle (aliceTagged.apiEnv aliceApprove) alice.id aliceApprove.body
      (.approve 7)).1 }

def aliceRun : List (Backend × BackendAction) :=
  [(sampleBackend, aliceLogin), (aliceIn, .request aliceTag), (aliceTagged, .request aliceApprove)]

/-- Alice logs in, creates a tag and approves a post. -/
theorem aliceRun_trace :
    Trace (step sampleJwt sampleArgon sampleConfig) sampleBackend aliceRun aliceApproved := by
  have htag : aliceIn.admits sampleJwt sampleConfig .admin aliceTag = .ok alice :=
    aliceRequest_admitted rfl rfl rfl _ _
  have hadmins : aliceTagged.site.admins = sampleBackend.site.admins := by
    unfold aliceTagged
    dsimp only
    rw [handle_admins (by decide)]
    rfl
  have happrove : aliceTagged.admits sampleJwt sampleConfig .editor aliceApprove = .ok alice :=
    aliceRequest_admitted rfl hadmins rfl _ _
  have htagged : aliceIn.step sampleJwt sampleArgon sampleConfig (.request aliceTag)
      = some aliceTagged :=
    congrArg some (serve_write_fst (w := .createTag) rfl htag)
  have happroved : aliceTagged.step sampleJwt sampleArgon sampleConfig (.request aliceApprove)
      = some aliceApproved :=
    congrArg some (serve_write_fst (w := .approve 7) rfl happrove)
  exact ((Trace.nil sampleBackend).snoc aliceLogin_step).snoc htagged |>.snoc happroved

/--
**In every run, the tables of the API are at the end as they were at the start, unless a
request was let in on the way for an account that had the role of their writer then.**

A step which lets no such request in leaves the tables as they are (`step_same`): a request that
is not let in is answered before its handler, and a handler of another route writes other tables.
-/
theorem guarded {b₀ : Backend} {tr : List (Backend × BackendAction)}
    (hrun : Trace (step J A cfg) b₀ tr b) (ρ : Resource) :
    ρ.Same b₀.site b.site ∨ ∃ x ∈ tr, LetIn J cfg ρ.writer x.1 x.2 := by
  by_cases h : ∃ x ∈ tr, LetIn J cfg ρ.writer x.1 x.2
  · exact .inr h
  · refine .inl (hrun.invariant (I := fun t => ρ.Same b₀.site t.site)
      (G := fun t a => ¬ LetIn J cfg ρ.writer t a) ?_ ?_ (.refl ρ _))
    · intro t a u hI hG hstep
      exact hI.trans (step_same hG hstep)
    · intro x hx hlet
      exact h ⟨x, hx, hlet⟩

theorem guarded_alice : ∃ x ∈ aliceRun, LetIn sampleJwt sampleConfig .admin x.1 x.2 := by
  refine (guarded aliceRun_trace .catalog).resolve_left ?_
  intro hsame
  have htags : aliceApproved.site.db.tags.rows = sampleBackend.site.db.tags.rows :=
    congrArg Table.rows hsame.1
  exact absurd htags (by decide +kernel)

/-! ## Who did it -/

/-- The step is a request that was let in for the actor of the event, on a path that names its
post, at its time. -/
def Acts (J : Jwt) (cfg : AuthConfig) (e : PostEvent) (b : Backend) (a : BackendAction) : Prop :=
  ∃ r w admin, a = .request r ∧ r.route = .write w ∧ b.admits J cfg w.min r = .ok admin
    ∧ e.actorAdminId = some admin.id ∧ w.post = some e.postId ∧ e.createdAt = b.now / 1000

/-- **One step**: an event that was not there before is one of the services, without an actor, or
the handler of a request that was let in has written it for its account. -/
theorem step_events {a : BackendAction} (hstep : b.step J A cfg a = some b') :
    ∀ e ∈ b'.site.db.events,
      e.actorAdminId = none ∨ e ∈ b.site.db.events ∨ Acts J cfg e b a := by
  intro e he
  cases a with
  | tick d =>
      obtain rfl := Option.some.inj hstep
      exact .inr (.inl he)
  | work posts events dedupe queue =>
      rw [step] at hstep
      split at hstep
      · rename_i hevents
        obtain rfl := Option.some.inj hstep
        -- what the services add has no actor
        exact (hevents e he).imp_right .inl
      · cases hstep
  | request r =>
      obtain rfl := Option.some.inj hstep
      rcases serve_site J A cfg b r with hsite
        | ⟨w, admin, hroute, hadmits, hsite⟩
      · rw [hsite] at he
        exact .inr (.inl he)
      · rw [hsite] at he
        cases hmin : w.min with
        | editor =>
            -- the handlers of the editors alone write events
            obtain ⟨postId, hpost, posts, events, queue, hs, hevents⟩ :=
              handle_editor (b.apiEnv r) b.site admin.id r.body hmin
            rw [hs] at he
            rcases List.mem_append.mp he with hold | hnew
            · exact .inr (.inl hold)
            · obtain ⟨hid, hactor, hat⟩ := hevents e hnew
              exact .inr (.inr ⟨r, w, admin, rfl, hroute, hadmits, hactor, hid ▸ hpost, hat⟩)
        | admin =>
            obtain ⟨db, hs, hsub⟩ := handle_admin (b.apiEnv r) b.site admin.id r.body hmin
            rw [hs] at he
            exact .inr (.inl (hsub he))
        | superAdmin =>
            obtain ⟨admins, hs⟩ := handle_superAdmin (b.apiEnv r) b.site admin.id r.body hmin
            rw [hs] at he
            exact .inr (.inl he)

/--
**No event names an actor for whom no request was let in: in every run, an event with an
actor that was not there at the start was written by a request for that account, on a path
with its post, at the time that it gives.**

By induction on the run. One step may drop events, when the log is pruned, and adds none with an
actor but those that the handler of an admitted request writes (`step_events`).
-/
theorem attributed {b₀ : Backend} {tr : List (Backend × BackendAction)}
    (hrun : Trace (step J A cfg) b₀ tr b) :
    ∀ e ∈ b.site.db.events, e.actorAdminId.isSome →
      e ∈ b₀.site.db.events ∨ ∃ x ∈ tr, Acts J cfg e x.1 x.2 := by
  induction hrun with
  | nil => exact fun e he _ => .inl he
  | @snoc t u tr a _ hstep ih =>
      intro e he hactor
      rcases step_events hstep e he with hnone | hold | hacts
      · rw [hnone] at hactor
        cases hactor
      · exact (ih e hold hactor).imp_right fun ⟨x, hx, h⟩ => ⟨x, List.mem_append_left _ hx, h⟩
      · exact .inr ⟨(t, a), List.mem_append_right _ List.mem_cons_self, hacts⟩

theorem attributed_alice : ∃ e ∈ aliceApproved.site.db.events, e.action = .approved
    ∧ ∃ x ∈ aliceRun, Acts sampleJwt sampleConfig e x.1 x.2 := by
  have hevent : ∃ e ∈ aliceApproved.site.db.events, e.action = .approved
      ∧ e.actorAdminId.isSome = true := by
    decide +kernel
  obtain ⟨e, he, haction, hactor⟩ := hevent
  exact ⟨e, he, haction,
    (attributed aliceRun_trace e he hactor).resolve_left (List.not_mem_nil)⟩

end Backend

end TelegramCms
