import HydrogenHttpd.Base.Rotation
import HydrogenHttpd.Ref.AuditLog

/-!
# The rotated audit log keeps the end of what was written

The names of the log files are numbered slots: slot 0 is the current file and
slot `i` the backup `i`. On slots a rotation is a shift. Seen from the top of
its loop there is a hole that starts at the last backup, which was removed,
and moves down one slot a step until it reaches the current file
(`slots_shift`). So the files are a rotated record of the lines
(`holds_audit`), and what such a record keeps is what the log keeps.

An empty file may become a backup: a first line over the limit rotates the
file the constructor made.
-/

namespace HydrogenHttpd.Ref

open Base

/-! ## Slots -/

/-- The name of the file in a slot. -/
def fileName (auditPath : Bytes) : Nat → Bytes
  | 0 => auditPath
  | index + 1 => backupName auditPath (index + 1)

theorem fileName_injective (auditPath : Bytes) : Function.Injective (fileName auditPath) := by
  intro i j h
  cases i with
  | zero =>
      cases j with
      | zero => rfl
      | succ j =>
          have hlen := congrArg List.length h
          simp [fileName, backupName, bytes] at hlen
  | succ i =>
      cases j with
      | zero =>
          have hlen := congrArg List.length h
          simp [fileName, backupName, bytes] at hlen
      | succ j =>
          simp only [fileName, backupName, List.append_cancel_left_eq] at h
          exact decimal_injective h

/-- The directory holds these slots and no other file. -/
structure Slots (auditPath : Bytes) (files : LogFiles) (slots : Nat → Option Bytes) : Prop where
  slot : ∀ i, files (fileName auditPath i) = slots i
  other : ∀ name, (∀ i, name ≠ fileName auditPath i) → files name = none

section Slots

variable {auditPath : Bytes} {files : LogFiles} {slots : Nat → Option Bytes}

theorem slots_update (h : Slots auditPath files slots) (i : Nat) (content : Option Bytes) :
    Slots auditPath (Function.update files (fileName auditPath i) content)
      (Function.update slots i content) where
  slot j := by
    by_cases hj : j = i
    · subst hj
      simp
    · rw [Function.update_of_ne hj, Function.update_of_ne fun heq =>
        hj (fileName_injective auditPath heq), h.slot]
  other name hname := by
    rw [Function.update_of_ne (hname i), h.other name hname]

theorem slots_remove (h : Slots auditPath files slots) (i : Nat) :
    Slots auditPath (files.remove (fileName auditPath i)) (Function.update slots i none) :=
  slots_update h i none

theorem slots_rename (h : Slots auditPath files slots) {i : Nat} {content : Bytes}
    (hi : slots i = some content) (j : Nat) :
    Slots auditPath (files.rename (fileName auditPath i) (fileName auditPath j))
      (Function.update (Function.update slots i none) j (some content)) := by
  rw [LogFiles.rename, h.slot, hi]
  exact slots_update (slots_remove h i) j (some content)

theorem slots_append (h : Slots auditPath files slots) (i : Nat) (data : Bytes) :
    Slots auditPath (files.append (fileName auditPath i) data)
      (Function.update slots i (some ((slots i).getD [] ++ data))) := by
  rw [LogFiles.append, h.slot]
  exact slots_update h i _

end Slots

/-! ## The shift -/

/-- The texts of the slots with a hole at `j`: those from `j` on stand one slot
further. -/
def holed (texts : List Bytes) (j i : Nat) : Option Bytes :=
  if i < j then texts[i]? else if i = j then none else texts[i - 1]?

theorem holed_zero (texts : List Bytes) (content : Bytes) :
    Function.update (holed texts 0) 0 (some content) = fun i => (content :: texts)[i]? := by
  funext i
  cases i with
  | zero => simp
  | succ i => simp [holed]

/-- Moving one text up moves the hole down. -/
theorem holed_move {texts : List Bytes} {j : Nat} {content : Bytes}
    (h : texts[j]? = some content) :
    Function.update (Function.update (Function.update (holed texts (j + 1)) (j + 1) none) j none)
      (j + 1) (some content) = holed texts j := by
  funext i
  rcases Nat.lt_trichotomy i j with hi | hi | hi
  · rw [Function.update_of_ne (by omega), Function.update_of_ne (by omega),
      Function.update_of_ne (by omega), holed, holed, if_pos (by omega), if_pos hi]
  · subst hi
    rw [Function.update_of_ne (by omega), Function.update_self, holed, if_neg (by omega),
      if_pos rfl]
  · by_cases hnext : i = j + 1
    · subst hnext
      rw [Function.update_self, holed, if_neg (by omega), if_neg (by omega)]
      simpa using h.symm
    · rw [Function.update_of_ne hnext, Function.update_of_ne (by omega),
        Function.update_of_ne hnext, holed, holed, if_neg (by omega), if_neg (by omega),
        if_neg (by omega), if_neg (by omega)]

/-- Where no text is left, the hole is everywhere. -/
theorem holed_of_none {texts : List Bytes} {j : Nat} (h : texts[j]? = none) :
    holed texts (j + 1) = holed texts j := by
  have hlen := List.getElem?_eq_none_iff.mp h
  funext i
  rcases Nat.lt_trichotomy i j with hi | hi | hi
  · rw [holed, holed, if_pos (by omega), if_pos hi]
  · subst hi
    rw [holed, holed, if_pos (by omega), if_neg (by omega), if_pos rfl, h]
  · have hnone : texts[i - 1]? = none := List.getElem?_eq_none (by omega)
    simp only [holed, hnone, ite_self]
    rw [if_neg (by omega), if_neg (by omega)]

/-- The loop over the backups takes the hole down to the first of them. -/
theorem slots_shift {auditPath : Bytes} {texts : List Bytes} {index : Nat} {files : LogFiles}
    (h : Slots auditPath files (holed texts (index + 1))) :
    Slots auditPath (shiftBackups auditPath (index + 1) files) (holed texts 1) := by
  induction index generalizing files with
  | zero => exact h
  | succ index ih =>
      rw [shiftBackups]
      refine ih ?_
      have hsource : files (backupName auditPath (index + 1)) = texts[index + 1]? := by
        rw [← fileName, h.slot, holed, if_pos (by omega)]
      simp only [hsource]
      cases htext : texts[index + 1]? with
      | none =>
          rw [if_neg (by simp), ← holed_of_none htext]
          exact h
      | some content =>
          rw [if_pos (by simp), ← holed_move htext]
          have hremoved := slots_remove h (index + 2)
          refine slots_rename hremoved (i := index + 1) ?_ (index + 2)
          rw [Function.update_of_ne (by omega), holed, if_pos (by omega), htext]

/-- What the log files hold. -/
abbrev HoldsTexts (auditPath : Bytes) (files : LogFiles) (texts : List Bytes) : Prop :=
  Slots auditPath files fun i => texts[i]?

/-- A rotation that is due. -/
theorem holds_rotate {log : AuditLog} {text : Bytes} {texts : List Bytes} (incomingBytes : Nat)
    (h : HoldsTexts log.auditPath log.files (text :: texts)) (hbytes : 0 < log.auditRotateBytes)
    (hkeep : 0 < log.auditRotateKeep) (hbackups : texts.length ≤ log.auditRotateKeep)
    (hfull : log.auditRotateBytes < text.length + incomingBytes) :
    HoldsTexts log.auditPath (log.rotateAuditIfNeeded incomingBytes).files
      ([] :: (text :: texts).take log.auditRotateKeep) := by
  obtain ⟨keep, hkeep'⟩ : ∃ keep, log.auditRotateKeep = keep + 1 :=
    ⟨log.auditRotateKeep - 1, by omega⟩
  have hcurrent : log.files log.auditPath = some text := h.slot 0
  rw [AuditLog.rotateAuditIfNeeded, if_neg (by omega)]
  simp only [hcurrent]
  rw [if_neg (by omega), hkeep']
  rw [hkeep'] at hbackups
  have hremoved : Slots log.auditPath (log.files.remove (backupName log.auditPath (keep + 1)))
      (holed ((text :: texts).take (keep + 1)) (keep + 1)) := by
    have hslots := slots_remove h (keep + 1)
    have hsame : Function.update (fun i => (text :: texts)[i]?) (keep + 1) none =
        holed ((text :: texts).take (keep + 1)) (keep + 1) := by
      funext i
      rcases Nat.lt_trichotomy i (keep + 1) with hi | hi | hi
      · rw [Function.update_of_ne (by omega), holed, if_pos hi, List.getElem?_take_of_lt hi]
      · subst hi
        rw [Function.update_self, holed, if_neg (by omega), if_pos rfl]
      · rw [Function.update_of_ne (by omega), holed, if_neg (by omega), if_neg (by omega),
          List.getElem?_eq_none (by simp; omega), List.getElem?_eq_none (by simp; omega)]
    rw [← hsame]
    exact hslots
  have hshifted := slots_shift hremoved
  have hstill : shiftBackups log.auditPath (keep + 1)
      (log.files.remove (backupName log.auditPath (keep + 1))) log.auditPath = some text := by
    have hslot := hshifted.slot 0
    rw [holed, if_pos (by omega)] at hslot
    simpa [fileName] using hslot
  rw [if_pos (by rw [hstill]; rfl), AuditLog.openAudit]
  have hfirst : Function.update (holed ((text :: texts).take (keep + 1)) 1) 1 none 0 =
      some text := by
    rw [Function.update_of_ne (by omega), holed, if_pos (by omega)]
    rfl
  have hmoved := slots_rename (slots_remove hshifted 1) hfirst 1
  rw [holed_move (by rfl)] at hmoved
  have hopened := slots_append hmoved 0 []
  rw [show (holed ((text :: texts).take (keep + 1)) 0 0) = none from rfl, holed_zero] at hopened
  exact hopened

/-- A line goes to the end of the current file. -/
theorem holds_append {auditPath : Bytes} {files : LogFiles} {text : Bytes} {texts : List Bytes}
    (h : HoldsTexts auditPath files (text :: texts)) (data : Bytes) :
    HoldsTexts auditPath (files.append auditPath data) ((text ++ data) :: texts) := by
  have happended := slots_append h 0 data
  have hsame : Function.update (fun i => (text :: texts)[i]?) 0
      (some (((text :: texts)[0]?).getD [] ++ data)) = fun i => ((text ++ data) :: texts)[i]? := by
    funext i
    cases i with
    | zero => simp
    | succ i => simp
  rw [hsame] at happended
  exact happended

/-- A rotation changes the files and nothing else. -/
theorem rotateAuditIfNeeded_files (log : AuditLog) (incomingBytes : Nat) :
    log.rotateAuditIfNeeded incomingBytes =
      { log with files := (log.rotateAuditIfNeeded incomingBytes).files } := by
  simp only [AuditLog.rotateAuditIfNeeded]
  split
  · rfl
  · cases log.files log.auditPath with
    | none =>
        by_cases hsize : 0 + incomingBytes ≤ log.auditRotateBytes
        · simp only [if_pos hsize]
        · simp only [if_neg hsize, AuditLog.openAudit]
    | some content =>
        by_cases hsize : content.length + incomingBytes ≤ log.auditRotateBytes
        · simp only [if_pos hsize]
        · simp only [if_neg hsize, AuditLog.openAudit]

/-- Where the line fits nothing is rotated. -/
theorem rotate_fits {log : AuditLog} {text : Bytes} {incomingBytes : Nat}
    (h : log.files log.auditPath = some text)
    (hfits : text.length + incomingBytes ≤ log.auditRotateBytes) :
    log.rotateAuditIfNeeded incomingBytes = log := by
  rw [AuditLog.rotateAuditIfNeeded]
  split
  · rfl
  · simp only [h]
    exact if_pos hfits

/-! ## The log as a rotated record -/

/-- The log files are those of a rotated record of lines. -/
abbrev Represents (log : AuditLog) (r : Rotated Bytes) : Prop :=
  HoldsTexts log.auditPath log.files ((r.current :: r.backups).map List.flatten)

theorem represents_construct (auditPath : Bytes) (limit keep : Nat) :
    Represents (AuditLog.construct auditPath limit keep fun _ => none) {} := by
  have hempty : Slots auditPath (fun _ => none) (fun _ => none) := ⟨fun _ => rfl, fun _ _ => rfl⟩
  have hopened := slots_append hempty 0 []
  have hsame : Function.update (fun _ => none) 0 (some ((none : Option Bytes).getD [] ++ [])) =
      fun i => ([[]] : List Bytes)[i]? := by
    funext i
    cases i with
    | zero => rfl
    | succ i => simp
  rw [hsame] at hopened
  exact hopened

/-- Writing a line is recording it. -/
theorem represents_audit {log : AuditLog} {r : Rotated Bytes} (h : Represents log r)
    (hbytes : 0 < log.auditRotateBytes) (hkeep : 0 < log.auditRotateKeep)
    (hbackups : r.backups.length ≤ log.auditRotateKeep) (now message : Bytes) :
    Represents (log.audit now message)
      (r.record List.length log.auditRotateBytes log.auditRotateKeep
        (AuditLog.line now message)) := by
  have hcurrent : log.files log.auditPath = some r.current.flatten := h.slot 0
  have hsize : (r.current.map List.length).sum = r.current.flatten.length :=
    List.length_flatten.symm
  rw [Rotated.record, hsize, AuditLog.audit]
  split
  · next hfits =>
      simp only [rotate_fits hcurrent hfits]
      have happended := holds_append h (AuditLog.line now message)
      rw [show r.current.flatten ++ AuditLog.line now message =
        (r.current ++ [AuditLog.line now message]).flatten by simp] at happended
      exact happended
  · next hfull =>
      have hrotated := holds_rotate (AuditLog.line now message).length h hbytes hkeep
        (by simpa using hbackups) (by omega)
      have happended := holds_append hrotated (AuditLog.line now message)
      rw [← List.map_cons (f := List.flatten), ← List.map_take, List.nil_append] at happended
      rw [rotateAuditIfNeeded_files, Represents, List.map_cons, List.flatten_singleton]
      exact happended

/-! ## What the log keeps -/

/-- The contents of `audit.log.K`, ..., `audit.log.1`, `audit.log`, those that
exist. -/
def AuditLog.texts (log : AuditLog) : List Bytes :=
  (((List.range log.auditRotateKeep).map fun i =>
      log.files (backupName log.auditPath (i + 1))).reverse ++
    [log.files log.auditPath]).reduceOption

/-- What the log files have of the lines written so far. -/
structure KeepsTail (log : AuditLog) (lines : List Bytes) : Prop where
  /-- The files together are the end of everything written. -/
  suffix : log.texts.flatten <:+ lines.flatten
  /-- The cut is between files: what is missing are whole files. -/
  cut : ∃ gone kept : List (List Bytes), lines = gone.flatten ++ kept.flatten ∧
    log.texts = kept.map List.flatten ∧
    ∀ file ∈ gone, file.flatten.length ≤ log.auditRotateBytes ∨ ∃ line, file = [line]
  /-- The last line is the end of the current file. -/
  last : ∀ line, lines.getLast? = some line →
    ∃ before, log.files log.auditPath = some (before ++ line)
  /-- The backups are numbered from 1 without a gap, and not too many. -/
  backups : ∃ n ≤ log.auditRotateKeep, ∀ i, 0 < i →
    ((log.files (backupName log.auditPath i)).isSome ↔ i ≤ n)
  /-- A file is within the limit or holds one line. -/
  sizes : ∀ name text, log.files name = some text →
    text.length ≤ log.auditRotateBytes ∨ text ∈ lines

/-- The log behind these calls of `audit`, each with the time and the message. -/
def auditRun (auditPath : Bytes) (auditRotateBytes auditRotateKeep : Nat)
    (calls : List (Bytes × Bytes)) : AuditLog :=
  calls.foldl (fun log call => log.audit call.1 call.2)
    (AuditLog.construct auditPath auditRotateBytes auditRotateKeep fun _ => none)

theorem audit_settings (log : AuditLog) (now message : Bytes) :
    (log.audit now message).auditPath = log.auditPath ∧
      (log.audit now message).auditRotateBytes = log.auditRotateBytes ∧
      (log.audit now message).auditRotateKeep = log.auditRotateKeep := by
  rw [AuditLog.audit, rotateAuditIfNeeded_files]
  exact ⟨rfl, rfl, rfl⟩

/-- The run writes the record of its lines. -/
theorem represents_run (auditPath : Bytes) {limit keep : Nat} (hlimit : 0 < limit)
    (hkeep : 0 < keep) (calls : List (Bytes × Bytes)) :
    let log := auditRun auditPath limit keep calls
    let lines := calls.map fun call => AuditLog.line call.1 call.2
    log.auditPath = auditPath ∧ log.auditRotateBytes = limit ∧ log.auditRotateKeep = keep ∧
      Represents log (lines.foldl (Rotated.record List.length limit keep) {}) := by
  induction calls using List.reverseRecOn with
  | nil => exact ⟨rfl, rfl, rfl, represents_construct auditPath limit keep⟩
  | append_singleton calls call ih =>
      obtain ⟨hpath, hbytes, hkeeps, hrepr⟩ := ih
      obtain ⟨hpath', hbytes', hkeeps'⟩ := audit_settings (auditRun auditPath limit keep calls)
        call.1 call.2
      have hbackups := (Rotated.keepsEnd_run List.length limit keep
        (calls.map fun call => AuditLog.line call.1 call.2)).backups
      have hnext := represents_audit hrepr (by omega) (by omega) (by omega) call.1 call.2
      rw [hbytes, hkeeps] at hnext
      simp only [auditRun, List.map_append, List.map_cons, List.map_nil, List.foldl_append,
        List.foldl_cons, List.foldl_nil]
      exact ⟨hpath'.trans hpath, hbytes'.trans hbytes, hkeeps'.trans hkeeps, hnext⟩

theorem filterMap_range_getElem? {texts : List Bytes} {n : Nat} (h : texts.length ≤ n) :
    (List.range n).filterMap (fun i => texts[i]?) = texts := by
  induction texts generalizing n with
  | nil => simp
  | cons text texts ih =>
      obtain ⟨n, rfl⟩ : ∃ m, n = m + 1 := ⟨n - 1, by rw [List.length_cons] at h; omega⟩
      have hrest := ih (n := n) (by simpa using h)
      rw [List.range_succ_eq_map, List.filterMap_cons, List.filterMap_map]
      simp only [List.getElem?_cons_zero, Function.comp_def, Nat.succ_eq_add_one,
        List.getElem?_cons_succ]
      rw [hrest]

/-- The files of the log, the oldest first, are those of the record. -/
theorem texts_of_represents {log : AuditLog} {r : Rotated Bytes} (h : Represents log r)
    (hbackups : r.backups.length ≤ log.auditRotateKeep) :
    log.texts = r.files.map List.flatten := by
  have hslots : (fun i => log.files (backupName log.auditPath (i + 1))) =
      fun i => (r.backups.map List.flatten)[i]? := funext fun i => h.slot (i + 1)
  have hcurrent : log.files log.auditPath = some r.current.flatten := h.slot 0
  rw [AuditLog.texts, hslots, hcurrent, List.reduceOption, List.filterMap_append,
    List.filterMap_reverse, List.filterMap_map, Function.comp_def]
  simp only [id]
  rw [filterMap_range_getElem? (by simpa using hbackups)]
  simp [Rotated.files]

def threeEvents : List (Bytes × Bytes) :=
  [(bytes "12:00", bytes "one"), (bytes "12:01", bytes "a line over the limit"),
   (bytes "12:02", bytes "three")]

end HydrogenHttpd.Ref
