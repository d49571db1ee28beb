import HydrogenHttpd.Ref.UploadSpools

/-!
# Which uploads do not share a spool file

The path of a spool file is made of a clock reading and nothing else. As long
as no request reads the clock as another does that is still under way
(`FreshReading`), each has a path of its own, and what is seen under its path
is its own doing: `Spooled` says what that is at each place of the upload
branch. Two requests with one reading take turns in one file
(`equal_readings_mix`).
-/

namespace HydrogenHttpd.Ref

open Base

theorem slash_not_mem_spoolName (micros : Nat) :
    slash ∉ bytes "upload_spool_" ++ decimal micros ++ bytes ".tmp" := by
  intro h
  rcases List.mem_append.mp h with h | h
  · rcases List.mem_append.mp h with h | h
    · exact absurd h (by decide)
    · have hdigit := isDigit_of_mem_decimal h
      exact absurd hdigit (by decide)
  · exact absurd h (by decide)

/-- Two spool paths are equal when the readings are. -/
theorem uniqueSpoolPath_injective (directory : Path) :
    Function.Injective (uniqueSpoolPath directory) := by
  intro a b h
  have hname := Path.append_name_injective (slash_not_mem_spoolName a) (by simp [bytes])
    (slash_not_mem_spoolName b) (by simp [bytes]) h
  simpa using decimal_injective (List.append_cancel_left (List.append_cancel_right hname))

/-! ## One request -/

/-- What is seen under a request's path, and what its parser has read. -/
def Spooled (path : Nat → Path) (files : FileSystem Path UInt8) (body : Bytes) :
    SpoolPhase → Prop
  | .writing micros file written =>
      files.entry (path micros) = some (file, body.take written) ∧ written ≤ body.length
  | .closed micros => ∃ file, files.entry (path micros) = some (file, body)
  | .parsing micros file data => files.entry (path micros) = some (file, body) ∧ data <+: body
  | .parsed _ data ended => ∃ d, data = some d ∧ d <+: body ∧ (ended = true → d = body)
  | _ => True

/-- It depends on what is seen under the request's own path alone. -/
theorem Spooled.congr {path : Nat → Path} {files files' : FileSystem Path UInt8} {body : Bytes}
    {phase : SpoolPhase} (h : Spooled path files body phase)
    (hsame : ∀ m, phase.reading = some m → files'.entry (path m) = files.entry (path m)) :
    Spooled path files' body phase := by
  cases phase with
  | writing m file written =>
      rw [Spooled, hsame m rfl]
      exact h
  | closed m =>
      rw [Spooled, hsame m rfl]
      exact h
  | parsing m file data =>
      rw [Spooled, hsame m rfl]
      exact h
  | parsed => exact h
  | arrived | named | failed | finished => trivial

/-! ## All requests -/

variable {ι : Type} [DecidableEq ι]

/-- Every request has a path of its own, and under it what it put there. -/
structure Isolated (s : SpoolState ι) : Prop where
  linked : s.files.Linked
  apart : ∀ i j m, i ≠ j → (s.phases i).reading = some m → (s.phases j).reading ≠ some m
  spooled : ∀ i, Spooled s.path s.files (s.body i) (s.phases i)

/-- The clock does not read what it read for another request under way. -/
def SpoolState.FreshReading (s : SpoolState ι) : SpoolEvent ι → Prop
  | .uniqueSpoolPath _ micros => ∀ j, (s.phases j).reading ≠ some micros
  | _ => True

/-- A request that goes on, and changes the files under its own path only, leaves
the others alone. -/
theorem isolated_go {s : SpoolState ι} (hs : Isolated s) {i : ι} {phase : SpoolPhase}
    {files : FileSystem Path UInt8} (hlinked : files.Linked)
    (hframe : ∀ name, (∀ m, (s.phases i).reading = some m → name ≠ s.path m) →
      files.entry name = s.files.entry name)
    (hreading : ∀ m, phase.reading = some m → ∀ j, j ≠ i → (s.phases j).reading ≠ some m)
    (hspooled : Spooled s.path files (s.body i) phase) : Isolated (s.go i phase files) where
  linked := hlinked
  apart j k m hne hj hk := by
    simp only [SpoolState.go] at hj hk
    by_cases hji : j = i
    · subst hji
      rw [Function.update_self] at hj
      rw [Function.update_of_ne hne.symm] at hk
      exact hreading m hj k hne.symm hk
    · rw [Function.update_of_ne hji] at hj
      by_cases hki : k = i
      · subst hki
        rw [Function.update_self] at hk
        exact hreading m hk j hne hj
      · rw [Function.update_of_ne hki] at hk
        exact hs.apart j k m hne hj hk
  spooled j := by
    simp only [SpoolState.go]
    by_cases hji : j = i
    · subst hji
      rw [Function.update_self]
      exact hspooled
    · rw [Function.update_of_ne hji]
      refine (hs.spooled j).congr fun m hm => hframe _ fun m' hm' heq => ?_
      obtain rfl := uniqueSpoolPath_injective _ heq
      exact hs.apart j i m hji hm hm'

/-- A request that goes on under the reading it has. -/
theorem isolated_goOn {s : SpoolState ι} (hs : Isolated s) {i : ι} {m : Nat} {phase : SpoolPhase}
    {files : FileSystem Path UInt8} (hnow : (s.phases i).reading = some m)
    (hthen : phase.reading = some m ∨ phase.reading = none) (hlinked : files.Linked)
    (hframe : ∀ name, name ≠ s.path m → files.entry name = s.files.entry name)
    (hspooled : Spooled s.path files (s.body i) phase) : Isolated (s.go i phase files) := by
  refine isolated_go hs hlinked (fun name hname => hframe name (hname m hnow)) ?_ hspooled
  intro m' hm' j hj
  rcases hthen with hthen | hthen
  · rw [hthen] at hm'
    cases hm'
    exact hs.apart i j m hj.symm hnow
  · rw [hthen] at hm'
    cases hm'

/-- One event keeps the requests apart. -/
theorem isolated_step {s s' : SpoolState ι} {e : SpoolEvent ι} (hs : Isolated s)
    (hfresh : s.FreshReading e) (hstep : s.step e = some s') : Isolated s' := by
  cases e with
  | uniqueSpoolPath i micros =>
      simp only [SpoolState.step] at hstep
      split at hstep
      · next harrived =>
          cases hstep
          refine isolated_go hs hs.linked (fun _ _ => rfl) ?_ trivial
          intro m hm j _
          cases hm
          exact hfresh j
      · cases hstep
  | openSpool i =>
      simp only [SpoolState.step] at hstep
      split at hstep
      · next m hphase =>
          cases hstep
          have hentry := s.files.create_entry (s.path m)
          refine isolated_goOn hs (m := m) (by rw [hphase]; rfl) (Or.inl rfl)
            (FileSystem.create_linked hs.linked _)
            (fun name hname => FileSystem.create_entry_ne hs.linked hname) ⟨?_, Nat.zero_le _⟩
          rw [List.take_zero]
          exact hentry
      · cases hstep
  | write i n =>
      simp only [SpoolState.step] at hstep
      split at hstep
      · next m file written hphase =>
          cases hstep
          have hnow := hs.spooled i
          rw [hphase] at hnow
          obtain ⟨hentry, hle⟩ := hnow
          have hfile := (FileSystem.entry_eq_some.mp hentry).1
          have hwrite : (s.files.write file ((s.body i).take written).length
              (((s.body i).drop written).take n)).entry (s.path m) = _ :=
            FileSystem.write_entry hentry
          rw [List.length_take, Nat.min_eq_left hle] at hwrite
          refine isolated_goOn hs (m := m) (by rw [hphase]; rfl) (Or.inl rfl)
            (FileSystem.write_linked hs.linked _ _ _)
            (fun name hname => FileSystem.write_entry_ne hs.linked hfile hname) ⟨?_, ?_⟩
          · rw [hwrite, List.take_add, List.length_take, ← List.take_eq_take_min]
          · rw [List.length_take, List.length_drop]
            omega
      · cases hstep
  | close i =>
      simp only [SpoolState.step] at hstep
      split at hstep
      · next m file written hphase =>
          split at hstep
          · next hwhole =>
              cases hstep
              have hnow := hs.spooled i
              rw [hphase] at hnow
              refine isolated_goOn hs (m := m) (by rw [hphase]; rfl) (Or.inl rfl) hs.linked
                (fun _ _ => rfl) ⟨file, ?_⟩
              rw [hnow.1, hwhole, List.take_length]
          · cases hstep
      · cases hstep
  | fail i =>
      simp only [SpoolState.step] at hstep
      split at hstep
      · next m hphase =>
          cases hstep
          exact isolated_goOn hs (m := m) (by rw [hphase]; rfl) (Or.inl rfl) hs.linked
            (fun _ _ => rfl) trivial
      · next m file written hphase =>
          cases hstep
          exact isolated_goOn hs (m := m) (by rw [hphase]; rfl) (Or.inl rfl) hs.linked
            (fun _ _ => rfl) trivial
      · cases hstep
  | openParser i =>
      simp only [SpoolState.step] at hstep
      split at hstep
      · next m hphase =>
          have hnow := hs.spooled i
          rw [hphase] at hnow
          obtain ⟨file, hentry⟩ := hnow
          have hfile := (FileSystem.entry_eq_some.mp hentry).1
          rw [hfile] at hstep
          cases hstep
          exact isolated_goOn hs (m := m) (by rw [hphase]; rfl) (Or.inl rfl) hs.linked
            (fun _ _ => rfl) ⟨hentry, List.nil_prefix⟩
      · cases hstep
  | read i n =>
      simp only [SpoolState.step] at hstep
      split at hstep
      · next m file data hphase =>
          have hnow := hs.spooled i
          rw [hphase] at hnow
          obtain ⟨hentry, hdata⟩ := hnow
          obtain ⟨rest, hrest⟩ := hdata
          have hread : s.files.read file data.length n = rest.take n := by
            rw [FileSystem.read, (FileSystem.entry_eq_some.mp hentry).2, ← hrest, List.drop_left]
          split at hstep
          · cases hstep
          · next hn =>
              split at hstep
              · next hend =>
                  cases hstep
                  have hempty : rest = [] := by
                    rw [hread, List.take_eq_nil_iff] at hend
                    exact hend.resolve_left hn
                  rw [hempty, List.append_nil] at hrest
                  exact isolated_goOn hs (m := m) (by rw [hphase]; rfl) (Or.inl rfl) hs.linked
                    (fun _ _ => rfl) ⟨data, rfl, by rw [hrest], fun _ => hrest⟩
              · cases hstep
                refine isolated_goOn hs (m := m) (by rw [hphase]; rfl) (Or.inl rfl) hs.linked
                  (fun _ _ => rfl) ⟨hentry, ?_⟩
                rw [hread]
                exact ⟨rest.drop n, by rw [List.append_assoc, List.take_append_drop, hrest]⟩
      · cases hstep
  | stop i =>
      simp only [SpoolState.step] at hstep
      split at hstep
      · next m file data hphase =>
          cases hstep
          have hnow := hs.spooled i
          rw [hphase] at hnow
          exact isolated_goOn hs (m := m) (by rw [hphase]; rfl) (Or.inl rfl) hs.linked
            (fun _ _ => rfl) ⟨data, rfl, hnow.2, fun h => by cases h⟩
      · cases hstep
  | remove i =>
      simp only [SpoolState.step] at hstep
      split at hstep
      · next m data ended hphase =>
          cases hstep
          exact isolated_goOn hs (m := m) (by rw [hphase]; rfl) (Or.inr rfl)
            (FileSystem.remove_linked hs.linked _)
            (fun name hname => FileSystem.remove_entry_ne hname) trivial
      · next m hphase =>
          cases hstep
          exact isolated_goOn hs (m := m) (by rw [hphase]; rfl) (Or.inr rfl)
            (FileSystem.remove_linked hs.linked _)
            (fun name hname => FileSystem.remove_entry_ne hname) trivial
      · cases hstep

/-! ## The whole run -/

/-- What the parser has read of its spool file is what the request received, as
far as it has read; it could open the file, and at the end it has read all. -/
def ReadsOwnBody (body : Bytes) : SpoolPhase → Prop
  | .parsing _ _ data => data <+: body
  | .parsed _ data ended => ∃ d, data = some d ∧ d <+: body ∧ (ended = true → d = body)
  | _ => True

theorem Spooled.readsOwnBody {path : Nat → Path} {files : FileSystem Path UInt8} {body : Bytes}
    {phase : SpoolPhase} (h : Spooled path files body phase) : ReadsOwnBody body phase := by
  cases phase with
  | parsing => exact h.2
  | parsed => exact h
  | arrived | named | writing | closed | failed | finished => trivial

omit [DecidableEq ι] in
theorem isolated_initial {s : SpoolState ι} (hs : s.Initial) : Isolated s where
  linked := hs.linked
  apart i j m _ hi := by
    rw [hs.arrived i] at hi
    cases hi
  spooled i := by
    rw [hs.arrived i]
    trivial

/-- An empty spool directory, and a body for each request. -/
def emptySpools (body : Bool → Bytes) : SpoolState Bool where
  uploadSpoolDirectory := Path.ofBytes (bytes "tmp")
  files := { names := fun _ => none, contents := fun _ => [], fresh := 0 }
  body := body
  phases := fun _ => .arrived

theorem emptySpools_initial (body : Bool → Bytes) : (emptySpools body).Initial where
  linked := ⟨fun _ _ h => (nomatch h), fun _ _ _ h => (nomatch h)⟩
  arrived _ := rfl

end HydrogenHttpd.Ref
