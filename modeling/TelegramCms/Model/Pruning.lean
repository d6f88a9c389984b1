import TelegramCms.Model.Content

/-!
# Pruning the media directory

`_prune_media_files` of `worker/reconcile.py`: one query for the media paths of the posts
in `_MEDIA_RELEVANT_STATES`, then a pass over the media directory that removes the old
files the query did not return.
-/

namespace TelegramCms

/-- `_MEDIA_RELEVANT_STATES` -/
def mediaRelevantStates : List PostState := [.pending, .approved, .scheduled, .published]

/-- An entry of the media directory. -/
structure MediaEntry where
  name : Text
  isFile : Bool := true
  /-- `stat().st_mtime` -/
  mtime : Time
  /-- One of the calls on it raises `OSError`. -/
  raises : Bool := false
  /-- The name of a directory entry is one component of a path. -/
  component : name ≠ [] ∧ '/' ∉ name
deriving DecidableEq

/-- `str(entry)` -/
def MediaEntry.path (settings : Settings) (e : MediaEntry) : Text :=
  settings.mediaDir ++ ['/'] ++ e.name

/-- The media paths of the posts in the relevant states. -/
def referenced (db : Db) : List Text :=
  (db.posts.rows.filter (fun p => p.state ∈ mediaRelevantStates)).flatMap Post.mediaPaths

/-- The pass over the directory removes this entry. -/
def MediaEntry.pruned (settings : Settings) (now : Time) (db : Db) (e : MediaEntry) : Bool :=
  !e.raises && e.isFile && e.mtime < now - days settings.mediaRetentionDays
    && e.path settings ∉ referenced db && e.name ∉ referenced db

/-- `_prune_media_files`: the entries it leaves, and how many it removed. A directory that
does not exist has no entries. -/
def pruneMediaFiles (settings : Settings) (now : Time) (db : Db) (entries : List MediaEntry) :
    List MediaEntry × Nat :=
  let (removed, left) := entries.partition (MediaEntry.pruned settings now db)
  (left, removed.length)

section Pruned

variable {settings : Settings} {now : Time} {db : Db} {e : MediaEntry} {entries : List MediaEntry}

theorem mem_referenced {f : Text} :
    f ∈ referenced db ↔ ∃ p ∈ db.posts.rows, p.state ∈ mediaRelevantStates ∧ f ∈ p.mediaPaths := by
  simp [referenced, List.mem_flatMap, and_assoc]

/-- What is left are the entries that were not pruned. -/
theorem mem_pruneMediaFiles :
    e ∈ (pruneMediaFiles settings now db entries).1
      ↔ e ∈ entries ∧ e.pruned settings now db = false := by
  simp [pruneMediaFiles, List.partition_eq_filter_filter]

theorem MediaEntry.path_ne_nil : e.path settings ≠ [] := by
  simp [MediaEntry.path]

end Pruned

end TelegramCms
