import TelegramCms.Lib.Transition
import TelegramCms.Model.Installer

/-!
# The image tag

`IMAGE_TAG` of the `.env` says which images Compose runs. The installer writes it once; from
then on it is `write_image_tag` of `fleet/auto-update.sh` that does, for an update and for its
rollback.
-/

namespace TelegramCms.Installer

open EnvFile

/-- A commit as `git rev-parse` prints it. -/
structure Commit where
  text : Text
  length : text.length = 40
  hex : ∀ c ∈ text, c ∈ "0123456789abcdef".toList

/-- `write_image_tag` -/
def writeImageTag (file : Text) (sha : Commit) : Text :=
  if pins file imageTag then replace imageTag sha.text file
  else file ++ '\n' :: text [.set imageTag sha.text]

/-- What changes an `.env`. -/
inductive EnvAction where
  | install (volume : Bool) (host : Host) (a : Answers) (s : Secrets)
  | writeImageTag (sha : Commit)

/-- The `.env` after it, if there was or is one. -/
def envStep (file : Option Text) : EnvAction → Option (Option Text)
  | .install volume host a s =>
    match install volume file host a s with
    | .ok o => some (some o.env)
    | .error _ => some file
  | .writeImageTag sha => some (some (writeImageTag (file.getD []) sha))

end TelegramCms.Installer
