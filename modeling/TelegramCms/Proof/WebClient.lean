import TelegramCms.Model.WebClient
import TelegramCms.Proof.Guards

/-!
# A call is carried out once

`apiFetch` sends its request again after a refresh. That repeats nothing, since no handler
behind the middleware answers 401 itself (`handle_answer`): an answer that starts a refresh
comes from the middleware, and the handler has not run.

An error that a handler answers has changed nothing, with one exception. An approval, or a
schedule, is committed before its job is enqueued, and an error of Redis is answered with 500
(`Unqueued`); to a call that had to refresh its token even that is the end of the session.
-/

namespace TelegramCms

open Transition Concurrent

/-! ## What the handlers answer -/

/-- Its errors are errors to a client, and none is the 401 of the middleware. -/
def Final {α : Type} (x : Except HttpAnswer α) : Prop :=
  ∀ a, x = .error a → a.isOk = false ∧ a.status ≠ 401

section Final

variable {α : Type} {env : ApiEnv} {s : Site} {body : Text}

@[simp] theorem final_ok (x : α) : Final (.ok x) := by
  intro a h
  cases h

/-- An answer is final if the client neither takes it for a success nor asks once more. -/
theorem final_answer {a : HttpAnswer} :
    Final (.error a : Except HttpAnswer α) ↔ a.isOk = false ∧ a.status ≠ 401 := by
  constructor
  · exact fun h => h a rfl
  · intro h b hb
    rw [← Except.error.inj hb]
    exact h

@[simp] theorem final_error {status : Nat} {detail : String} :
    Final (.error (.error status detail) : Except HttpAnswer α)
      ↔ ¬ (200 ≤ status ∧ status < 300) ∧ status ≠ 401 := by
  rw [final_answer, HttpAnswer.isOk, decide_eq_false_iff_not]
  rfl

@[simp] theorem final_dbError : Final (.error dbError : Except HttpAnswer α) := by
  rw [dbError, final_error]
  omega

@[simp] theorem final_transact {x : Except HttpAnswer Db} (h : Final x) : Final (s.transact x) := by
  cases x with
  | ok db => exact final_ok _
  | error a => exact final_answer.mpr (final_answer.mp h)

/-- What a decision refuses, it refuses for good. -/
theorem decide_final {p actor : Nat} {action : Verdict} {tagIds : Option (List Int)}
    {t : Option Time} : Final (Go.decide env s p actor action tagIds t) := by
  rw [Go.decide.eq_def]
  split
  · simp
  · cases action with
    | approve => exact final_ok _
    | reject => exact final_ok _
    | schedule =>
        dsimp only
        split
        · simp
        · split <;> simp

theorem handleApprove_final {p actor : Nat} : Final (Go.handleApprove env s p actor body) := by
  unfold Go.handleApprove
  exact decide_final

theorem handleDecision_final {p actor : Nat} : Final (Go.handleDecision env s p actor body) := by
  unfold Go.handleDecision
  dsimp only
  split
  · simp
  · split
    · simp
    · exact decide_final

theorem handleSchedule_final {p actor : Nat} : Final (Go.handleSchedule env s p actor body) := by
  unfold Go.handleSchedule
  dsimp only
  split
  · simp
  · exact decide_final

theorem handleEditTags_final {p actor : Nat} : Final (Go.handleEditTags env s p actor body) := by
  unfold Go.handleEditTags
  split
  · simp
  · dsimp only
    split
    · simp
    · split <;> simp

theorem setDefaultTagLinks_final {db : Db} {id : Nat} {ids : List Int} :
    Final (db.setDefaultTagLinks id ids) := by
  unfold Db.setDefaultTagLinks
  dsimp only
  split
  · exact final_answer.mpr ⟨rfl, (by decide : 400 ≠ 401)⟩
  · split <;> simp

theorem patchChannel_final {db : Db} {c : SourceChannel} {p : ChannelPatch} :
    Final (db.patchChannel c p) := by
  unfold Db.patchChannel
  split
  · simp
  · split
    · simp
    · exact setDefaultTagLinks_final

theorem createChannel_final {db : Db} {id : Nat} {tg : Int} {p : ChannelPatch} :
    Final (db.createChannel id tg p) := by
  unfold Db.createChannel
  dsimp only
  split
  · split
    · simp
    · split
      · simp
      · exact setDefaultTagLinks_final
  · simp

theorem createTag_final {db : Db} {id : Nat} {slug label : Text} {color : Option Text} :
    Final (db.createTag id slug label color) := by
  unfold Db.createTag
  split
  · split <;> simp
  · simp

theorem handleCreateTag_final : Final (Go.handleCreateTag env s body) := by
  unfold Go.handleCreateTag
  dsimp only
  split
  · simp
  · split
    · simp
    · exact final_transact createTag_final

theorem handleUpdateTag_final {id : Nat} : Final (Go.handleUpdateTag s id body) := by
  unfold Go.handleUpdateTag
  split
  · simp
  · dsimp only
    split
    · simp
    · split
      · simp
      · split <;> simp

theorem handleDeleteTag_final {id : Nat} : Final (Go.handleDeleteTag s id) := by
  unfold Go.handleDeleteTag
  split <;> simp

theorem handleCreateTemplate_final : Final (Go.handleCreateTemplate s body) := by
  unfold Go.handleCreateTemplate
  dsimp only
  split
  · simp
  · split <;> simp

theorem handleUpdateTemplate_final {id : Nat} : Final (Go.handleUpdateTemplate s id body) := by
  unfold Go.handleUpdateTemplate
  split
  · simp
  · dsimp only
    split
    · simp
    · split
      · simp
      · split <;> simp

theorem handleDeleteTemplate_final {id : Nat} : Final (Go.handleDeleteTemplate s id) := by
  unfold Go.handleDeleteTemplate
  split <;> simp

theorem handleCreateChannel_final : Final (Go.handleCreateChannel env s body) := by
  unfold Go.handleCreateChannel
  dsimp only
  split
  · simp
  · split
    · simp
    · exact final_transact createChannel_final

theorem handleUpdateAISettings_final {id : Nat} : Final (Go.handleUpdateAISettings s id body) := by
  unfold Go.handleUpdateAISettings
  split
  · simp
  · split
    · simp
    · split
      · simp
      · exact final_transact patchChannel_final

theorem handleDeleteChannel_final {id : Nat} : Final (Go.handleDeleteChannel s id) := by
  unfold Go.handleDeleteChannel
  split
  · simp
  · split
    · exact final_answer.mpr ⟨rfl, (by decide : 409 ≠ 401)⟩
    · simp

theorem createAdmin_final {t : Admins} {username hash : Text} {role : Role} {tg : Option Int} :
    Final (Go.createAdmin t username hash role tg) := by
  unfold Go.createAdmin
  split
  · split <;> simp
  · simp

theorem handleCreateAdmin_final : Final (Go.handleCreateAdmin env s body) := by
  unfold Go.handleCreateAdmin
  dsimp only
  split
  · simp
  · split
    · simp
    · split
      · rename_i a h
        exact final_answer.mpr (createAdmin_final a h)
      · simp

theorem handleUpdateAdmin_final {id : Nat} : Final (Go.handleUpdateAdmin env s id body) := by
  unfold Go.handleUpdateAdmin
  dsimp only
  repeat' split
  all_goals simp

end Final

/-- A decision that asks for publishing is committed, and the enqueueing of its job has failed:
Redis may have the job or not. -/
def Unqueued (env : ApiEnv) (postId : Nat) (s s' : Site) : Prop :=
  env.enqueue ≠ .done ∧ ∃ actor post d tagIds job, s.db.posts.get postId = some post
    ∧ d ≠ .reject
    ∧ s' = (Go.enqueueDecision env (Go.commitDecision env s postId actor post d tagIds) job).1

/-- The job of a decision went through, unless there was none, or the decision is left without. -/
theorem decide_enqueue {env : ApiEnv} {s : Site} {p actor : Nat} {y : Site × Enqueue}
    (h : ∃ action tagIds t, Go.decide env s p actor action tagIds t = .ok y) :
    y.2 = .done ∨ Unqueued env p s y.1 := by
  obtain ⟨action, tagIds, t, h⟩ := h
  -- the two decisions that enqueue a job commit first
  have hjob : ∀ post d job, s.db.posts.get p = some post → d ≠ .reject →
      y = Go.enqueueDecision env (Go.commitDecision env s p actor post d tagIds) job →
      y.2 = .done ∨ Unqueued env p s y.1 := by
    rintro post d job hget hd rfl
    by_cases he : env.enqueue = .done
    · exact .inl he
    · exact .inr ⟨he, actor, post, d, tagIds, job, hget, hd, rfl⟩
  rw [Go.decide.eq_def] at h
  split at h
  · cases h
  · rename_i post hget
    cases action with
    | approve => exact hjob post _ _ hget (by simp) (Except.ok.inj h).symm
    | schedule =>
        dsimp only at h
        split at h
        · cases h
        · split at h
          · cases h
          · exact hjob post _ _ hget (by simp) (Except.ok.inj h).symm
    | reject =>
        -- a rejection has no job
        obtain rfl := Except.ok.inj h
        exact .inl rfl

/-- What an error has left of a site. -/
def Kept (env : ApiEnv) (w : WriteRoute) (s s' : Site) : Prop :=
  s' = s ∨ ∃ p, w.post = some p ∧ Unqueued env p s s'

/-- The answer of a handler: success, or an error that is no 401 and has changed nothing but for
a decision without its job. -/
def Conclusive (env : ApiEnv) (w : WriteRoute) (s : Site) (x : Site × HttpAnswer) : Prop :=
  x.2.isOk = true ∨ (Kept env w s x.1 ∧ x.2.isOk = false ∧ x.2.status ≠ 401)

/-- What a handler answers whose errors are final, and whose success is a success. -/
theorem conclusive_reply {env : ApiEnv} {w : WriteRoute} {s : Site} {status : Nat}
    {x : Except HttpAnswer Site} (hstatus : HttpAnswer.isOk ⟨status, none⟩ = true) (h : Final x) :
    Conclusive env w s (s.reply status x) := by
  cases x with
  | ok s' => exact .inl hstatus
  | error a => exact .inr ⟨.inl rfl, h a rfl⟩

/-- The handlers that decide: their success may still be a failure to enqueue. -/
theorem conclusive_replyEnqueued {env : ApiEnv} {w : WriteRoute} {s : Site} {p actor : Nat}
    {x : Except HttpAnswer (Site × Enqueue)} (hpost : w.post = some p) (h : Final x)
    (hx : ∀ y, x = .ok y →
      ∃ action tagIds t, Go.decide env s p actor action tagIds t = .ok y) :
    Conclusive env w s (s.replyEnqueued x) := by
  cases x with
  | error a => exact .inr ⟨.inl rfl, h a rfl⟩
  | ok y =>
      have hy := decide_enqueue (hx y rfl)
      obtain ⟨s', e⟩ := y
      cases e with
      | done => exact .inl rfl
      | error kept =>
          have hjob : Unqueued env p s s' := hy.resolve_left (by simp)
          exact .inr ⟨.inr ⟨p, hpost, hjob⟩, rfl, (by decide : 500 ≠ 401)⟩

/-- `handleUpdateChannel` answers for itself; it writes only with its 200. -/
theorem conclusive_updateChannel {env : ApiEnv} {w : WriteRoute} {s : Site} {id : Nat}
    {b : Option Json} : Conclusive env w s ({ s with db := (handleUpdateChannel s.db id b).1 },
      (handleUpdateChannel s.db id b).2) := by
  rw [handleUpdateChannel.eq_def]
  split
  · exact .inr ⟨.inl rfl, rfl, (by decide : 404 ≠ 401)⟩
  · split
    · exact .inr ⟨.inl rfl, rfl, (by decide : 422 ≠ 401)⟩
    · split
      · exact .inr ⟨.inl rfl, rfl, (by decide : 422 ≠ 401)⟩
      · split
        · exact .inl rfl
        · rename_i c _ _ body _ _ _
          cases hpatch : s.db.patchChannel c body.channelSets with
          | ok db => exact .inl rfl
          | error a => exact .inr ⟨.inl rfl, patchChannel_final a hpatch⟩

theorem handle_answer (s : Site) (env : ApiEnv) (actor : Nat) (body : Text) (w : WriteRoute) :
    Conclusive env w s (s.handle env actor body w) := by
  cases w with
  | createTag => exact conclusive_reply rfl handleCreateTag_final
  | updateTag id => exact conclusive_reply rfl handleUpdateTag_final
  | deleteTag id => exact conclusive_reply rfl handleDeleteTag_final
  | createTemplate => exact conclusive_reply rfl handleCreateTemplate_final
  | updateTemplate id => exact conclusive_reply rfl handleUpdateTemplate_final
  | deleteTemplate id => exact conclusive_reply rfl handleDeleteTemplate_final
  | createChannel => exact conclusive_reply rfl handleCreateChannel_final
  | updateChannel id => exact conclusive_updateChannel
  | deleteChannel id => exact conclusive_reply rfl handleDeleteChannel_final
  | updateAISettings id => exact conclusive_reply rfl handleUpdateAISettings_final
  | createAdmin => exact conclusive_reply rfl handleCreateAdmin_final
  | updateAdmin id => exact conclusive_reply rfl handleUpdateAdmin_final
  | editTags p => exact conclusive_reply rfl handleEditTags_final
  | decision p => exact conclusive_replyEnqueued rfl handleDecision_final fun _ => handleDecision_decide
  | approve p => exact conclusive_replyEnqueued rfl handleApprove_final fun _ => handleApprove_decide
  | schedule p => exact conclusive_replyEnqueued rfl handleSchedule_final fun _ => handleSchedule_decide
  | reject p => exact conclusive_replyEnqueued rfl decide_final fun _ => handleReject_decide

/-! ## One call -/

namespace Web

variable {J : Jwt} {A : Argon2} {cfg : AuthConfig}

/-- The handler has left the site as it was, or has committed a decision whose job Redis did not
confirm. -/
def Spared (route : Route) (redis : Enqueue) (x : Site × Site) : Prop :=
  x.2 = x.1 ∨ ∃ w p env, route = .write w ∧ w.post = some p ∧ env.enqueue = redis
    ∧ Unqueued env p x.1 x.2

/-- What serving a request of a call has done, by the answer. -/
structure Served (route : Route) (redis : Enqueue) (a : HttpAnswer) (ran : List (Site × Site)) :
    Prop where
  once : ran.length ≤ 1
  /-- The middleware has not let it in. -/
  challenged : a.status = 401 → ran = []
  carriedOut : a.isOk = true → (∃ w, route = .write w) → ran.length = 1
  spared : a.isOk = false → ∀ x ∈ ran, Spared route redis x

/-- The middleware refuses with 401 or 403. -/
theorem requireRole_error {now : Int} {t : Admins} {min : Role} {header : Option Text}
    {a : HttpAnswer} (h : Go.requireRole J cfg now t min header = .error a) : a.isOk = false := by
  have hauth : ∀ c, authorize t min c = .error a → a.isOk = false := by
    intro c hc
    rw [authorize.eq_def] at hc
    split at hc
    · obtain rfl := Except.error.inj hc
      rfl
    · split at hc
      · obtain rfl := Except.error.inj hc
        rfl
      · split at hc
        · obtain rfl := Except.error.inj hc
          rfl
        · split at hc
          · cases hc
          · obtain rfl := Except.error.inj hc
            rfl
  rw [Go.requireRole] at h
  split at h
  · obtain rfl := Except.error.inj h
    rfl
  · exact hauth _ h

theorem served_nil {route : Route} {redis : Enqueue} {a : HttpAnswer}
    (h : a.isOk = true → ∀ w, route ≠ .write w) : Served route redis a [] :=
  ⟨Nat.zero_le 1, fun _ => rfl, fun hok ⟨w, hw⟩ => absurd hw (h hok w), by simp⟩

/-- A request that is not let in runs no handler. -/
theorem writes_error {b : Backend} {r : HttpRequest} {w : WriteRoute} {a : HttpAnswer}
    (hroute : r.route = .write w) (hadmits : b.admits J cfg w.min r = .error a) :
    writes J A cfg b r = [] := by
  simp only [writes, hroute, hadmits]

/-- A request that is let in runs the handler of its route. -/
theorem writes_ok {b : Backend} {r : HttpRequest} {w : WriteRoute} {admin : Admin}
    (hroute : r.route = .write w) (hadmits : b.admits J cfg w.min r = .ok admin) :
    writes J A cfg b r = [(b.site, (b.site.handle (b.apiEnv r) admin.id r.body w).1)] := by
  simp only [writes, hroute, hadmits, Backend.serve_write hroute hadmits]

theorem writes_nil {b : Backend} {r : HttpRequest} (h : ∀ w, r.route ≠ .write w) :
    writes J A cfg b r = [] := by
  rw [writes.eq_def]
  split
  · rename_i w hw
    exact absurd hw (h w)
  · rfl

/-- To refresh a session runs none of the handlers that write. -/
theorem writes_refresh (J : Jwt) (A : Argon2) (cfg : AuthConfig) (b : Backend) (browser : Browser)
    (call : ApiCall) (authorization : Option Text) (found : HttpAnswer) :
    writes J A cfg b (request browser call .refresh authorization found) = [] :=
  writes_nil (fun w hw => by cases hw)

theorem serve_served {b : Backend} {r : HttpRequest} {reply : HttpReply}
    (h : (b.serve J A cfg r).2 = some reply) :
    Served r.route r.env.enqueue reply.answer (writes J A cfg b r) := by
  by_cases hwrite : ∃ w, r.route = .write w
  · obtain ⟨w, hroute⟩ := hwrite
    rw [Backend.serve, hroute] at h
    cases hadmits : b.admits J cfg w.min r with
    | error a =>
        -- the middleware answers
        simp only [hadmits] at h
        obtain rfl := Option.some.inj h
        rw [writes_error hroute hadmits]
        refine served_nil ?_
        intro hok
        rw [requireRole_error hadmits] at hok
        cases hok
    | ok admin =>
        -- the handler is run, and answers for what it has done
        simp only [hadmits] at h
        obtain rfl := Option.some.inj h
        have hanswer := handle_answer b.site (b.apiEnv r) admin.id r.body w
        rw [writes_ok hroute hadmits]
        refine ⟨Nat.le_refl 1, ?_, fun _ _ => rfl, ?_⟩
        · intro h401
          dsimp only at h401
          rcases hanswer with hok | ⟨-, -, hne⟩
          · rw [HttpAnswer.isOk, decide_eq_true_eq] at hok
            omega
          · exact absurd h401 hne
        · intro hnot x hx
          obtain rfl := List.mem_singleton.mp hx
          rcases hanswer with hok | ⟨hkept, -, -⟩
          · exact absurd (hok.symm.trans hnot) (by decide)
          · rcases hkept with hs | ⟨p, hp, hjob⟩
            · exact .inl hs
            · exact .inr ⟨w, p, b.apiEnv r, hroute, hp, rfl, hjob⟩
  · have hnone : ∀ w, r.route ≠ .write w := fun w hw => hwrite ⟨w, hw⟩
    rw [writes_nil hnone]
    exact served_nil (fun _ => hnone)

/-- What is true of a call at each point. -/
def Sound (c : PageCall) : Prop :=
  match c.pc with
  | .idle | .out .refresh _ | .out _ (.asked _) => c.ran = []
  | .out _ (.answered r) => Served c.call.route c.call.env.enqueue r.answer c.ran
  | .done o => c.ran.length ≤ 1
      ∧ (o = .ok → (∃ w, c.call.route = .write w) → c.ran.length = 1)
      ∧ (o = .unauthorized ∨ (∃ status, o = .apiError status) →
          ∀ x ∈ c.ran, Spared c.call.route c.call.env.enqueue x)

/-- A call ends with what it ran, whatever becomes of the session in the browser. -/
theorem finish_sound {b : Browser} {c : PageCall} {o : Outcome} {t : Option (Text × Text)}
    (hlen : c.ran.length ≤ 1)
    (hok : o = .ok → (∃ w, c.call.route = .write w) → c.ran.length = 1)
    (hspared : o = .unauthorized ∨ (∃ status, o = .apiError status) →
      ∀ x ∈ c.ran, Spared c.call.route c.call.env.enqueue x) :
    Sound (finish b c o t).2 :=
  ⟨hlen, hok, hspared⟩

/-- The end of a call whose answer is bad. -/
theorem finish_spared {b : Browser} {c : PageCall} {o : Outcome} {r : HttpReply}
    {t : Option (Text × Text)} (h : Served c.call.route c.call.env.enqueue r.answer c.ran)
    (hbad : r.answer.isOk = false) (ho : o ≠ .ok) : Sound (finish b c o t).2 :=
  finish_sound h.once (fun hok => absurd hok ho) (fun _ => h.spared hbad)

/-- What `apiFetch` does with an answer: a 401 makes it refresh and ask once more, and then it has
run nothing yet; any other ends the call. -/
theorem resume_sound {b : Browser} {c : PageCall} {attempt : Attempt} {r : HttpReply}
    (h : Sound { c with pc := .out attempt (.answered r) }) : Sound (resume b c attempt r).2 := by
  cases attempt with
  | first =>
      have hs : Served c.call.route c.call.env.enqueue r.answer c.ran := h
      rw [resume]
      split
      · exact hs.challenged ‹_›
      · split
        · exact finish_sound hs.once (fun _ => hs.carriedOut ‹_›) (by simp)
        · exact finish_spared hs (Bool.eq_false_iff.mpr ‹_›) (by simp)
  | refresh =>
      have hnil : c.ran = [] := h
      rw [resume]
      split
      · exact hnil
      · refine finish_sound (by simp [hnil]) (by simp) ?_
        rw [hnil]
        simp
  | retry =>
      have hs : Served c.call.route c.call.env.enqueue r.answer c.ran := h
      rw [resume]
      split
      · exact finish_sound hs.once (fun _ => hs.carriedOut ‹_›) (by simp)
      · exact finish_spared hs (Bool.eq_false_iff.mpr ‹_›) (by simp)

/-- A call that gets no answer ends with what it ran; a refresh that gets none ran nothing. -/
theorem fail_sound {b : Browser} {c : PageCall} {attempt : Attempt} (hlen : c.ran.length ≤ 1)
    (hrefresh : attempt = .refresh → c.ran = []) : Sound (fail b c attempt).2 := by
  cases attempt with
  | refresh =>
      refine finish_sound hlen (by simp) ?_
      rw [hrefresh rfl]
      simp
  | first => exact finish_sound hlen (by simp) (by simp)
  | retry => exact finish_sound hlen (by simp) (by simp)

/-- The answer of the API to a call that has run nothing says what it ran. -/
theorem serve_sound {b : Backend} {browser : Browser} {c : PageCall} {attempt : Attempt}
    {authorization : Option Text} {found : HttpAnswer} {reply : HttpReply} (hnil : c.ran = [])
    (h : (b.serve J A cfg (request browser c.call attempt authorization found)).2 = some reply) :
    Sound { c with
      pc := .out attempt (.answered reply)
      ran := c.ran ++ writes J A cfg b (request browser c.call attempt authorization found) } := by
  have hserved := serve_served h
  rw [hnil, List.nil_append]
  cases attempt with
  | first => exact hserved
  | retry => exact hserved
  | refresh => exact writes_refresh J A cfg b browser c.call authorization found

def Party.Sound : Party → Prop
  | .page c => Web.Sound c
  | .other _ => True

theorem sound_length {c : PageCall} {attempt : Attempt} {r : HttpReply}
    (h : Sound { c with pc := .out attempt (.answered r) }) : c.ran.length ≤ 1 := by
  cases attempt with
  | refresh =>
      have hnil : c.ran = [] := h
      rw [hnil]
      exact Nat.zero_le 1
  | first => exact Served.once h
  | retry => exact Served.once h

theorem writes_length (b : Backend) (r : HttpRequest) : (writes J A cfg b r).length ≤ 1 := by
  rw [writes.eq_def]
  split
  · split
    · exact Nat.le_refl 1
    · exact Nat.zero_le 1
  · exact Nat.zero_le 1

theorem program_next : (program J A cfg).next = next J A cfg := rfl

/-- A request arrives: the API runs its handler and the answer is on its way. -/
theorem next_arrives {d : Store} {c : PageCall}
    {attempt : Attempt} {authorization : Option Text} {found : HttpAnswer} {r : HttpRequest}
    {b : Backend} {reply : HttpReply} (hpc : c.pc = .out attempt (.asked authorization))
    (hr : request d.browser c.call attempt authorization found = r)
    (h : d.backend.serve J A cfg r = (b, some reply)) :
    next J A cfg d (.page c) (.arrives found)
      = some ({ d with backend := b }, some (.page { c with
          pc := .out attempt (.answered reply)
          ran := c.ran ++ writes J A cfg d.backend r })) := by
  simp only [next, hpc, hr, h]

/-- **One step** of a page keeps its call sound. The cases are those of a delivery: a request
arrives or is lost, an answer arrives or is lost. -/
theorem next_sound {d : Store} {p : Party} {r : Delivery} {x : Store × Option Party}
    (h : p.Sound) (hx : next J A cfg d p r = some x) : ∀ p' ∈ x.2, p'.Sound := by
  cases p with
  | other a =>
      obtain ⟨b, -, rfl⟩ := Option.map_eq_some_iff.mp hx
      simp
  | page c =>
      obtain ⟨call, pc, ran⟩ := c
      cases pc with
      | idle =>
          obtain rfl := Option.some.inj hx
          intro p' hp'
          obtain rfl := Option.some.inj hp'
          exact h
      | done o => cases hx
      | out attempt flight =>
          cases flight with
          | asked authorization =>
              -- a request that is still on its way has run nothing
              have hnil : ran = [] := by cases attempt <;> exact h
              cases r with
              | lost =>
                  obtain rfl := Option.some.inj hx
                  intro p' hp'
                  obtain rfl := Option.some.inj hp'
                  exact fail_sound (by simp [hnil]) (fun _ => hnil)
              | arrives found =>
                  rw [next] at hx
                  dsimp only at hx
                  split at hx
                  · rename_i reply hreply
                    obtain rfl := Option.some.inj hx
                    intro p' hp'
                    obtain rfl := Option.some.inj hp'
                    exact serve_sound (c := ⟨call, .idle, ran⟩) hnil hreply
                  · obtain rfl := Option.some.inj hx
                    intro p' hp'
                    obtain rfl := Option.some.inj hp'
                    -- the API served the request and did not answer
                    refine fail_sound ?_ ?_
                    · rw [hnil]
                      exact writes_length _ _
                    · rintro rfl
                      rw [hnil]
                      exact writes_refresh J A cfg d.backend d.browser call authorization found
          | answered reply =>
              cases r with
              | lost =>
                  obtain rfl := Option.some.inj hx
                  intro p' hp'
                  obtain rfl := Option.some.inj hp'
                  refine fail_sound (sound_length (c := ⟨call, .idle, ran⟩) h) ?_
                  -- the answer of a refresh is lost: nothing was run before it
                  rintro rfl
                  exact h
              | arrives found =>
                  obtain rfl := Option.some.inj hx
                  intro p' hp'
                  obtain rfl := Option.some.inj hp'
                  exact resume_sound h

/-- **However the calls of the pages, the other clients and the other services come in between
each other, and whichever requests and answers get lost: no handler is run twice for a call,
though the client repeats it; it was run for a call that returns; and a call that throws an
`ApiError`, the one of a lost session included, has changed nothing, unless it is an approval
or a schedule whose job Redis did not confirm.**

By an invariant of the single call (`Sound`): its list of runs is empty until a request is
let in, and an answer that makes `apiFetch` ask once more leaves it empty. -/
theorem called_once {w₀ w : Pool Store Party}
    {tr : List (Pool Store Party × Act Request Delivery)}
    (hrun : Trace (program J A cfg).step w₀ tr w) (hstart : w₀.parties = []) :
    ∀ i c, w.party i = some (.page c) → c.ran.length ≤ 1
      ∧ (c.pc = .done .ok → (∃ w, c.call.route = .write w) → c.ran.length = 1)
      ∧ (c.pc = .done .unauthorized ∨ (∃ status, c.pc = .done (.apiError status)) →
          ∀ x ∈ c.ran, Spared c.call.route c.call.env.enqueue x) := by
  have henter : ∀ q, ((program J A cfg).enter q).Sound := by
    intro q
    cases q with
    | fetch call => exact rfl
    | other a => trivial
  have hnone : ∀ i p, w₀.party i = some p → p.Sound := by
    intro i p hp
    rw [Pool.party, hstart] at hp
    cases hp
  intro i c hc
  have hsound : Sound c :=
    Program.forall_party henter (fun _ _ _ _ => next_sound) hrun hnone i (.page c) hc
  obtain ⟨call, pc, ran⟩ := c
  cases pc with
  | idle =>
      have hnil : ran = [] := hsound
      simp [hnil]
  | out attempt flight =>
      refine ⟨?_, by simp, by simp⟩
      cases flight with
      | answered r => exact sound_length (c := ⟨call, .idle, ran⟩) hsound
      | asked authorization =>
          have hnil : ran = [] := by cases attempt <;> exact hsound
          simp [hnil]
  | done o =>
      obtain ⟨hlen, hok, hspared⟩ := hsound
      refine ⟨hlen, fun h => hok (FetchPc.done.inj h), fun h => hspared ?_⟩
      rcases h with h | ⟨status, h⟩
      · exact .inl (FetchPc.done.inj h)
      · exact .inr ⟨status, FetchPc.done.inj h⟩

/-! ### Alice creates a tag from a page -/

section Alice

open Backend

def tagCall : ApiCall where
  route := .write .createTag
  body := aliceTag.body
  env := sampleApiEnv

def alicePage : Browser where
  token := some (sampleBackend.tokensFor sampleJwt sampleConfig alice .access)

theorem alicePage_authorization : authorization alicePage = aliceTag.authorization := by
  have hne : sampleBackend.tokensFor sampleJwt sampleConfig alice .access ≠ [] :=
    (sampleJwt.encode_visible _ _ _).1
  rw [authorization, alicePage]
  exact if_neg hne

/-- The API answers with 201 and has the tag. -/
theorem aliceTag_serve : aliceIn.serve sampleJwt sampleArgon sampleConfig aliceTag
    = (aliceTagged, some ⟨⟨201, none⟩, none, false⟩) := by
  have hadmits : aliceIn.admits sampleJwt sampleConfig .admin aliceTag = .ok alice :=
    aliceRequest_admitted rfl rfl rfl _ _
  have hanswer : (aliceIn.site.handle (aliceIn.apiEnv aliceTag) alice.id aliceTag.body .createTag).2
      = ⟨201, none⟩ := by
    decide +kernel
  rw [serve_write (w := .createTag) rfl hadmits, hanswer, aliceTagged]

def aliceTagRan : PageCall where
  call := tagCall
  pc := .done .ok
  ran := [(aliceIn.site, aliceTagged.site)]

/-- The page sends what `aliceTag` is. -/
theorem tagCall_request :
    request alicePage tagCall .first aliceTag.authorization ⟨200, none⟩ = aliceTag := rfl

theorem aliceTag_writes : writes sampleJwt sampleArgon sampleConfig aliceIn aliceTag
      = [(aliceIn.site, aliceTagged.site)] := by
  have hadmits : aliceIn.admits sampleJwt sampleConfig .admin aliceTag = .ok alice :=
    aliceRequest_admitted rfl rfl rfl _ _
  have h := writes_ok (A := sampleArgon) (w := .createTag) (r := aliceTag) rfl hadmits
  rw [h, aliceTagged]

def tagAsked : PageCall where
  call := tagCall
  pc := .out .first (.asked aliceTag.authorization)

def tagAnswered : PageCall :=
  { aliceTagRan with pc := .out .first (.answered ⟨⟨201, none⟩, none, false⟩) }

theorem tagAsked_next : (program sampleJwt sampleArgon sampleConfig).next ⟨aliceIn, alicePage⟩
    (.page tagAsked) (.arrives ⟨200, none⟩)
      = some (⟨aliceTagged, alicePage⟩, some (.page tagAnswered)) := by
  rw [program_next, next_arrives (d := ⟨aliceIn, alicePage⟩) rfl tagCall_request aliceTag_serve,
    aliceTag_writes]
  rfl

/-- Her call from its start to the answer. -/
theorem tagCall_run : ∃ tr, Trace (program sampleJwt sampleArgon sampleConfig).step
    ⟨⟨aliceIn, alicePage⟩, []⟩ tr ⟨⟨aliceTagged, alicePage⟩, [some (.page aliceTagRan)]⟩ := by
  have hstart : (program sampleJwt sampleArgon sampleConfig).step ⟨⟨aliceIn, alicePage⟩, []⟩
      (.start (.fetch tagCall)) = some ⟨⟨aliceIn, alicePage⟩, [some (.page { call := tagCall })]⟩ :=
    rfl
  have hsend : (program sampleJwt sampleArgon sampleConfig).step
      ⟨⟨aliceIn, alicePage⟩, [some (.page { call := tagCall })]⟩ (.move 0 .lost)
      = some ⟨⟨aliceIn, alicePage⟩, [some (.page tagAsked)]⟩ := by
    rw [tagAsked, ← alicePage_authorization]
    rfl
  have hserve : (program sampleJwt sampleArgon sampleConfig).step
      ⟨⟨aliceIn, alicePage⟩, [some (.page tagAsked)]⟩ (.move 0 (.arrives ⟨200, none⟩))
      = some ⟨⟨aliceTagged, alicePage⟩, [some (.page tagAnswered)]⟩ := by
    have hparty : Pool.party (D := Store) ⟨⟨aliceIn, alicePage⟩, [some (Party.page tagAsked)]⟩ 0
        = some (Party.page tagAsked) := rfl
    rw [Program.step_of_next hparty tagAsked_next]
    rfl
  have hdone : (program sampleJwt sampleArgon sampleConfig).step
      ⟨⟨aliceTagged, alicePage⟩, [some (.page tagAnswered)]⟩ (.move 0 (.arrives ⟨200, none⟩))
      = some ⟨⟨aliceTagged, alicePage⟩, [some (.page aliceTagRan)]⟩ := rfl
  exact ⟨_, ((((Trace.nil _).snoc hstart).snoc hsend).snoc hserve).snoc hdone⟩

theorem called_once_alice : aliceTagRan.ran.length = 1 := by
  obtain ⟨tr, hrun⟩ := tagCall_run
  exact (called_once hrun rfl 0 aliceTagRan rfl).2.1 rfl ⟨_, rfl⟩

end Alice

end Web

end TelegramCms
