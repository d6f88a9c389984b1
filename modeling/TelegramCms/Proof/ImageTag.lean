import TelegramCms.Model.ImageTag
import TelegramCms.Proof.Installer

/-!
# The tag that is written is the tag that is read

`write_image_tag` edits the lines that begin with `IMAGE_TAG=` and looks at no others. A
program that takes a line like `export IMAGE_TAG=…` for an assignment could read another tag,
and an edit could cost another variable; neither happens to a file that the installer left
(`tag_written`). A variable whose value is made from the tag is another matter: to a program
that expands `${IMAGE_TAG}` it changes with the tag, and that program is no `Reader` of the file.
-/

namespace TelegramCms.Installer

open EnvFile Transition

variable {r : Reader} {file : Text} {sha : Commit} {env env' : Option Text}
  {tr : List (Option Text × EnvAction)}

/-- The hash of a commit has no quotes, blanks or breaks. -/
theorem Commit.plain (sha : Commit) : Plain sha.text := fun c hc =>
  Or.inl (isAlphanum_of_hex sha.hex c hc)

theorem tagLine_single : ∀ l ∈ [Line.set imageTag sha.text], l.Single :=
  List.forall_mem_singleton.mpr sha.plain.no_break

theorem pins_iff {n : Name} : pins file n = true ↔ ∃ l ∈ lines file, n.text ++ ['='] <+: l := by
  rw [pins, List.any_eq_true]
  exact exists_congr fun l => and_congr_right fun _ => decide_eq_true_iff

/-- The tag is read back as it was written. -/
theorem value_writeImageTag_self (h : r.Only imageTag file) :
    r.value (writeImageTag file sha) imageTag.text = some sha.text := by
  rw [writeImageTag]
  split
  · rename_i hpins
    exact r.value_replace_self sha.plain h (pins_iff.mp hpins)
  · exact r.value_append_self file [] tagLine_single sha.plain

/-- No other variable is touched, by a reader that reads each line by itself. -/
theorem value_writeImageTag_of_ne {n : Name} (h : n ≠ imageTag) :
    r.value (writeImageTag file sha) n.text = r.value file n.text := by
  rw [writeImageTag]
  split
  · exact r.value_replace_of_ne sha.plain.no_break h
  · exact r.value_append_of_notMem file tagLine_single (List.mem_singleton.not.mpr h)

/-- The file has no other line for the tag than the one that was written. -/
theorem only_writeImageTag (h : r.Only imageTag file) :
    r.Only imageTag (writeImageTag file sha) := by
  rw [writeImageTag]
  split
  · exact h.replace sha.plain.no_break
  · exact h.append tagLine_single

/-- What is added for another variable does not bring in one for this. -/
theorem only_pin {n m : Name} {ls : List Line} (hs : ∀ l ∈ ls, l.Single) (h : r.Only n file) :
    r.Only n (pin m ls file) := by
  rw [pin]
  split
  · exact h
  · exact h.append hs

theorem only_keepEnv {n : Name} (h : r.Only n file) : r.Only n (keepEnv file) :=
  only_pin pinProfiles_single (only_pin pinProject_single h)

theorem only_nil {n : Name} : r.Only n [] := fun line hline x hx => by
  obtain rfl : line = [] := List.mem_singleton.mp hline
  rw [r.blank] at hx
  cases hx

theorem detect_some {volume : Bool} {a : Answers} (h : detect volume env a = .ok (some file)) :
    env = some file := by
  unfold detect at h
  split at h
  · split at h
    · cases h
    · obtain rfl := Option.some.inj (Except.ok.inj h)
      rfl
  · split at h <;> cases h

/-- Whatever the installer leaves, the tag is set in the way `write_image_tag` looks for. -/
theorem only_install {volume : Bool} {host : Host} {a : Answers} {s : Secrets} {o : Outcome}
    (h : install volume env host a s = .ok o) (hfile : ∀ f ∈ env, r.Only imageTag f) :
    r.Only imageTag o.env := by
  rw [install] at h
  cases hdetect : detect volume env a with
  | error e =>
      rw [hdetect] at h
      cases h
  | ok kept =>
      rw [hdetect] at h
      cases kept with
      | some file =>
          obtain rfl := Except.ok.inj h
          exact only_keepEnv (hfile file (detect_some hdetect))
      | none =>
          cases volume with
          | true =>
              -- a new file would not have the password of the database that is there
              have herror : Except.error Abort.passwordNotFound = Except.ok o := h
              cases herror
          | false =>
              obtain rfl := Except.ok.inj h
              exact Reader.only_text
                (template_single host _ (drawn_no_break s) (values_no_break _ a))

/-- **One step** of the installer or of an update leaves the tag in one line. -/
theorem only_step {act : EnvAction} (h : envStep env act = some env')
    (henv : ∀ f ∈ env, r.Only imageTag f) : ∀ f ∈ env', r.Only imageTag f := by
  cases act with
  | install volume host a s =>
      rw [envStep] at h
      split at h
      · rename_i o ho
        obtain rfl := Option.some.inj h
        rintro f hf
        obtain rfl := Option.some.inj hf
        exact only_install ho henv
      · obtain rfl := Option.some.inj h
        exact henv
  | writeImageTag sha =>
      obtain rfl := Option.some.inj h
      intro f hf
      obtain rfl := Option.some.inj hf
      refine only_writeImageTag ?_
      cases env with
      | none => exact only_nil
      | some file => exact henv file rfl

/-- **After any runs of the installer and of the update script `write_image_tag` sets the tag
for every program that reads the file line by line, and no other variable.**

All that the runs keep up is that no line gives the tag but one that begins with it
(`only_step`); the edit looks at these lines, so it misses none. -/
theorem tag_written (r : Reader) (h : Trace envStep env tr env')
    (henv : ∀ f ∈ env, r.Only imageTag f) (sha : Commit) :
    r.value (writeImageTag (env'.getD []) sha) imageTag.text = some sha.text
      ∧ ∀ n : Name, n ≠ imageTag →
        r.value (writeImageTag (env'.getD []) sha) n.text = r.value (env'.getD []) n.text := by
  have honly : ∀ f ∈ env', r.Only imageTag f :=
    h.invariant' (fun _ _ _ hs he => only_step he hs) henv
  refine ⟨value_writeImageTag_self ?_, fun n hn => value_writeImageTag_of_ne hn⟩
  cases env' with
  | none => exact only_nil
  | some file => exact honly file rfl

def sameCommit (c : Char) (hc : c ∈ "0123456789abcdef".toList) : Commit :=
  ⟨List.replicate 40 c, List.length_replicate, fun _ hx => List.eq_of_mem_replicate hx ▸ hc⟩

/-- A new install, and an update. -/
def updatedOnce : List EnvAction :=
  [.install false someHost (answering ⟨['n'], by decide⟩ ⟨['3'], by decide⟩)
      (sameSecrets 'a' (by decide)),
    .writeImageTag (sameCommit '1' (by decide))]

/-- The update is rolled back. -/
theorem tag_written_back : ∃ file, runs envStep none updatedOnce = some (some file)
    ∧ bash.value (writeImageTag file (sameCommit '0' (by decide))) imageTag.text
        = some (sameCommit '0' (by decide)).text := by
  have hrun : ((runs envStep none updatedOnce).bind id).isSome = true := by decide +kernel
  obtain ⟨file, hfile⟩ := Option.isSome_iff_exists.mp hrun
  obtain ⟨env, henv, rfl⟩ := Option.bind_eq_some_iff.mp hfile
  have htag := tag_written bash (.of_runs henv) (fun _ hf => absurd hf (by simp))
    (sameCommit '0' (by decide))
  exact ⟨file, henv, htag.1⟩

end TelegramCms.Installer
