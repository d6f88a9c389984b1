import TelegramCms.Model.Jobs

/-!
# A job reaches the function it was made for

The text of a job is read back as the job (`deserialize_serialize`), whichever style it was
written in; so the worker of the queue that the producer names calls the function the
producer meant, with its arguments. The Go API writes the members in another order and
without blanks, and its job is the same one.
-/

namespace TelegramCms

namespace ArqJob

/-- The arguments are documents without numbers other than integers. -/
structure Native (job : ArqJob) : Prop where
  args : ∃ depth, ∀ j ∈ job.args, Json.Plain depth j
  kwargs : ∃ depth, ∀ m ∈ job.kwargs, Json.Plain depth m.2

theorem plain_data {job : ArqJob} (h : job.Native) : ∃ depth, Json.Plain depth job.data := by
  obtain ⟨⟨d₁, hargs⟩, d₂, hkwargs⟩ := h
  refine ⟨max d₁ d₂ + 1 + 1, .obj ?_⟩
  intro m hm
  simp only [List.mem_cons, List.not_mem_nil, or_false] at hm
  rcases hm with rfl | rfl | rfl | rfl | rfl
  · cases job.jobTry with
    | none => exact .null
    | some n => exact .int n
  · exact .str _
  · exact .arr fun j hj => (hargs j hj).mono (Nat.le_max_left _ _)
  · exact .obj fun x hx => (hkwargs x hx).mono (Nat.le_max_right _ _)
  · exact .int _

theorem ofData_data (job : ArqJob) : ofData job.data = some job := by
  obtain ⟨t, f, a, k, et⟩ := job
  cases t <;> rfl

/-- **A job is read back from what the serializer makes of it.** -/
theorem deserialize_serialize {job : ArqJob} (h : job.Native) :
    deserialize job.serialize = some job := by
  obtain ⟨depth, hplain⟩ := plain_data h
  rw [deserialize, serialize, Json.document_write hplain]
  exact ofData_data job

end ArqJob

/-! ## Python producers -/

theorem JobCall.native_job (c : JobCall) (enqueueTimeMs : Int) : (c.job enqueueTimeMs).Native := by
  refine ⟨⟨0, ?_⟩, 0, fun m hm => absurd hm (by simp [JobCall.job])⟩
  intro j hj
  cases c with
  | pruneDedupe => exact absurd hj (by simp [JobCall.job, JobCall.args])
  | alert text =>
      obtain rfl : j = .str text := by simpa [JobCall.job, JobCall.args] using hj
      exact .str text
  | normalize id | publish id | postDraft id =>
      obtain rfl : j = .int id := by simpa [JobCall.job, JobCall.args] using hj
      exact .int id

/-- A worker that is handed a call's name and arguments makes the call if it owns the
function. -/
theorem consume_job {q : QueueName} {c : JobCall} {enqueueTimeMs : Int} {body : Text}
    (h : ArqJob.deserialize body = some (c.job enqueueTimeMs)) :
    q.consume body = if q = c.queue then some c else none := by
  rw [QueueName.consume, h]
  cases q <;> cases c <;> rfl

/--
**Whatever is enqueued, the worker of its queue calls the function it was meant for with the
arguments it was given, and no other worker would know the function.**

The body of a job is read back as it was written (`deserialize_serialize`), and the names of the
functions differ from queue to queue (`consume_job`).
-/
theorem enqueued_consumed (c : JobCall) (enqueueTimeMs : Int) (q : QueueName) :
    q.consume (c.job enqueueTimeMs).serialize = if q = c.queue then some c else none :=
  consume_job (ArqJob.deserialize_serialize (c.native_job enqueueTimeMs))

/-! ## The Go producer -/

namespace Arq

theorem itoa_eq_writeInt (n : Int64) : itoa n = Json.writeInt n.toInt := by
  rw [itoa, Json.writeInt]
  generalize n.toInt = k
  cases k with
  | ofNat m =>
      rw [if_neg (show ¬ Int.ofNat m < 0 from Int.not_lt.mpr (Int.natCast_nonneg m))]
      exact Nat.toList_repr
  | negSucc m =>
      rw [if_pos (Int.negSucc_lt_zero m)]
      change ("-" ++ Nat.repr (m + 1)).toList = _
      rw [String.toList_append, Nat.toList_repr]
      rfl

/-- The job of `buildPublishJobBody`, its keys sorted. -/
def publishData (postID enqueueTimeMs : Int64) : Json :=
  .obj [
    ("a".toList, .arr [.int postID.toInt]),
    ("et".toList, .int enqueueTimeMs.toInt),
    ("f".toList, .str "publish".toList),
    ("k".toList, .obj []),
    ("t".toList, .null)]

/-- An object that starts with a list of one number and a number. -/
theorem write_numbers (st : Json.Style) (key₁ key₂ : Text) (n m : Int)
    (members : List (Text × Json)) :
    Json.write st (.obj ((key₁, .arr [.int n]) :: (key₂, .int m) :: members))
      = ('\x7b' :: '"' :: (st.body key₁ ++ ':' :: (st.gap ++ ['[']))) ++ Json.writeInt n
        ++ (']' :: ',' :: (st.gap ++ '"' :: (st.body key₂ ++ ':' :: st.gap))) ++ Json.writeInt m
        ++ Json.writeMoreMembers st members := by
  simp only [Json.write, Json.writeMembers, Json.writeMember, Json.writeItems, Json.writeMoreItems,
    Json.writeMoreMembers, List.append_assoc, List.cons_append, List.nil_append]

/-! The text around the two numbers. -/

theorem publishBody_start : "\x7b\"a\":[".toList
    = '\x7b' :: '"' :: (Json.goStyle.body "a".toList ++ ':' :: (Json.goStyle.gap ++ ['['])) := by
  decide +kernel

theorem publishBody_middle : "],\"et\":".toList
    = ']' :: ',' :: (Json.goStyle.gap
      ++ '"' :: (Json.goStyle.body "et".toList ++ ':' :: Json.goStyle.gap)) := by
  decide +kernel

theorem publishBody_end : ",\"f\":\"publish\",\"k\":\x7b\x7d,\"t\":null\x7d".toList
    = Json.writeMoreMembers Json.goStyle
        [("f".toList, .str "publish".toList), ("k".toList, .obj []), ("t".toList, .null)] := by
  decide +kernel

theorem append_congr {a b c a' b' c' x y : Text} (ha : a = a') (hb : b = b') (hc : c = c') :
    a ++ x ++ b ++ y ++ c = a' ++ x ++ b' ++ y ++ c' := by
  rw [ha, hb, hc]

theorem buildPublishJobBody_eq (postID enqueueTimeMs : Int64) :
    buildPublishJobBody postID enqueueTimeMs
      = Json.write Json.goStyle (publishData postID enqueueTimeMs) := by
  refine Eq.trans ?_ (write_numbers Json.goStyle _ _ postID.toInt enqueueTimeMs.toInt _).symm
  unfold buildPublishJobBody
  rw [itoa_eq_writeInt, itoa_eq_writeInt]
  exact append_congr publishBody_start publishBody_middle publishBody_end

theorem deserialize_buildPublishJobBody (postID enqueueTimeMs : Int64) :
    ArqJob.deserialize (buildPublishJobBody postID enqueueTimeMs)
      = some ((JobCall.publish postID.toInt).job enqueueTimeMs.toInt) := by
  have hplain : Json.Plain 2 (publishData postID enqueueTimeMs) := by
    refine .obj ?_
    intro m hm
    simp only [List.mem_cons, List.not_mem_nil, or_false] at hm
    rcases hm with rfl | rfl | rfl | rfl | rfl
    · refine .arr fun j hj => ?_
      obtain rfl := List.mem_singleton.mp hj
      exact .int _
    · exact .int _
    · exact .str _
    · exact .obj fun m hm => absurd hm (by simp)
    · exact .null
  rw [ArqJob.deserialize, buildPublishJobBody_eq, Json.document_write hplain]
  rfl

end Arq

/--
**The job that the Go API enqueues is read as the one `enqueue_publish` would have enqueued:
the bot calls `publish` with the id of the post.**

Go writes the members in the order of its sorted keys and Python in that of its dict, so the two
bodies are not the same bytes; what is read from them is (`deserialize_buildPublishJobBody`).
-/
theorem go_publish_consumed (jobID : Text) (postID : Int64) (delay : GoTime.Duration) (now : Int) :
    let job := Arq.enqueuePublish jobID postID delay now
    let call := JobCall.publish postID.toInt
    job.queue = call.queue.value
      ∧ ArqJob.deserialize job.body
          = ArqJob.deserialize (call.job (GoTime.unixMilli now).toInt).serialize
      ∧ call.queue.consume job.body = some call := by
  intro job call
  have hbody : ArqJob.deserialize job.body = some (call.job (GoTime.unixMilli now).toInt) :=
    Arq.deserialize_buildPublishJobBody postID (GoTime.unixMilli now)
  refine ⟨rfl, ?_, ?_⟩
  · rw [hbody, ArqJob.deserialize_serialize (call.native_job _)]
  · rw [consume_job hbody, if_pos rfl]

end TelegramCms
