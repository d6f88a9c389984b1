import TelegramCms.Lib.GoTime
import TelegramCms.Model.Http
import TelegramCms.Model.Process

/-!
# Delayed jobs of the Go API

`apigo/enqueue.go`, which writes an ARQ job to Redis, and the branch of `decide` in
`apigo/handlers_queue.go` that defers one. Here the clock and `scheduled_for` are instants
in nanoseconds, as in Go; everywhere else in this development they are the microseconds
that Postgres and Python keep.
-/

namespace TelegramCms

/-- What `time.Time.UnmarshalJSON` reads: an RFC 3339 time. Its year is 0 to 9999, and its
offset from UTC less than a day. -/
structure Rfc3339 where
  instant : Int
  earliest : -62167305540000000000 ≤ instant
  latest : instant < 253402387140000000000

namespace Arq

open GoTime

def queueBot : Text := "arq:queue:bot".toList

def jobKeyPrefix : Text := "arq:job:".toList

def arqExpiresExtraMs : Int64 := 86400000

def itoa (n : Int64) : Text := (toString n.toInt).toList

/-- `buildPublishJobBody`; the keys of a map are sorted. -/
def buildPublishJobBody (postID enqueueTimeMs : Int64) : Text :=
  "\x7b\"a\":[".toList ++ itoa postID ++ "],\"et\":".toList ++ itoa enqueueTimeMs
    ++ ",\"f\":\"publish\",\"k\":\x7b\x7d,\"t\":null\x7d".toList

/-- The two commands of the pipeline: `SET` with an expiration, and `ZADD`. -/
structure Pipeline where
  key : Text
  body : Text
  expiration : Duration
  queue : Text
  /-- Before it is made a `float64`, which is exact up to 2^53. -/
  score : Int64
  member : Text
deriving DecidableEq

/-- `enqueuePublish`, under the id that `randJobID` drew, with the clock at `now`. -/
def enqueuePublish (jobID : Text) (postID : Int64) (delay : Duration) (now : Int) : Pipeline :=
  let enqueueTimeMs := unixMilli now
  let deferMs := if milliseconds delay < 0 then 0 else milliseconds delay
  let score := enqueueTimeMs + deferMs
  let expiresMs := score - enqueueTimeMs + arqExpiresExtraMs
  { key := jobKeyPrefix ++ jobID
    body := buildPublishJobBody postID enqueueTimeMs
    expiration := ofMilliseconds expiresMs
    queue := queueBot
    score := score
    member := jobID }

/-- The branch `schedule` of `decide`, which reads the clock at `now`; `enqueuePublish` reads
it again `later`. -/
def schedule (jobID : Text) (postID : Int64) (scheduledFor : Rfc3339) (now later : Int) :
    Except HttpAnswer Pipeline :=
  if scheduledFor.instant ≤ now then .error (.error 400 "scheduled_for must be in the future")
  else .ok (enqueuePublish jobID postID (sub scheduledFor.instant now) later)

end Arq

end TelegramCms
