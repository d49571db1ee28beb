import HydrogenHttpd.Ref.Multipart
import HydrogenHttpd.Spec.FormData

/-!
# The names of an upload

Three facts about names, before any content is read. A sanitized file name is
left alone by a second sanitizing, so checking the clean name is checking the
name that was sent. A stored name determines the clock reading it was built
from, since digits hold no underscore. And the one header line of a standard
form part gives back exactly the two names it was written from.
-/

namespace HydrogenHttpd.Ref

open Base Spec

/-! ## Sanitized names -/

theorem basenameOnly_eq_self {s : Bytes} (h : ∀ c ∈ s, safeNameByte c = true) :
    basenameOnly s = s := by
  refine List.rtakeWhile_eq_self_iff.mpr fun c hc => ?_
  have hsafe := h c hc
  rw [decide_eq_true_eq]
  constructor <;> · rintro rfl; exact absurd hsafe (by decide)

theorem map_safeNameByte_eq_self {s : Bytes} (h : ∀ c ∈ s, safeNameByte c = true) :
    (s.map fun c => if safeNameByte c then c else 95) = s := by
  conv_rhs => rw [← List.map_id s]
  exact List.map_congr_left fun c hc => by rw [if_pos (h c hc)]; rfl

/-- What every sanitized name is: safe bytes, no dot at either end, and short
unless it carries the prefix that hides a leading dot. -/
structure CleanName (s : Bytes) : Prop where
  ne_nil : s ≠ []
  safe : ∀ c ∈ s, safeNameByte c = true
  head : ∀ c, s.head? = some c → isDotOrSpace c = false
  last : ∀ c, s.getLast? = some c → isDotOrSpace c = false
  short : s.length ≤ 96 ∨ ∃ u, s = bytes "upload_" ++ dot :: u ∧ u.length = 95

theorem isDotOrSpace_of_safe {c : UInt8} (h : safeNameByte c = true) (hc : c ≠ dot) :
    isDotOrSpace c = false := by
  rw [isDotOrSpace, Bool.or_eq_false_iff, beq_eq_false_iff_ne, beq_eq_false_iff_ne]
  refine ⟨hc, ?_⟩
  rintro rfl
  exact absurd h (by decide)

/-- A clean name is a fixed point of the sanitizer. -/
theorem CleanName.sanitize_eq {s : Bytes} (h : CleanName s) :
    Multipart.sanitizeFilename s = s := by
  have hhead : s.head? ≠ some dot := fun hd => absurd (h.head dot hd) (by decide)
  have hempty : ¬ s.isEmpty = true := by simpa using h.ne_nil
  simp only [Multipart.sanitizeFilename, basenameOnly_eq_self h.safe,
    map_safeNameByte_eq_self h.safe, trimWith_eq_self_of_ends h.head h.last, if_neg hempty]
  rcases h.short with hshort | ⟨u, rfl, hu⟩
  · have hle : ¬ 96 < s.length := by omega
    simp only [if_neg hle, if_neg hhead]
  · have hlen : (bytes "upload_" ++ dot :: u).length = 103 := by
      rw [List.length_append, List.length_cons, hu]; rfl
    simp only [hlen, show (bytes "upload_" ++ dot :: u).drop (103 - 96) = dot :: u from rfl,
      List.head?_cons, if_true, if_pos (show 96 < 103 by decide)]

/-- Whatever comes in, a clean name comes out. -/
theorem sanitizeFilename_clean (s : Bytes) : CleanName (Multipart.sanitizeFilename s) := by
  simp only [Multipart.sanitizeFilename]
  set m := (basenameOnly s).map fun c => if safeNameByte c then c else 95 with hm
  have hsafe : ∀ c ∈ m, safeNameByte c = true := by
    intro c hc
    rw [hm, List.mem_map] at hc
    obtain ⟨d, -, rfl⟩ := hc
    split
    · assumption
    · decide
  -- `t` is the name once trimmed and made non-empty
  obtain ⟨t, ht, hne, htsafe, hthead, htlast⟩ :
      ∃ t, (if (trimWith isDotOrSpace m).isEmpty then bytes "upload.bin"
          else trimWith isDotOrSpace m) = t ∧ t ≠ [] ∧
        (∀ c ∈ t, safeNameByte c = true) ∧
        (∀ c, t.head? = some c → isDotOrSpace c = false) ∧
        (∀ c, t.getLast? = some c → isDotOrSpace c = false) := by
    refine ⟨_, rfl, ?_⟩
    split
    · refine ⟨by decide, List.all_eq_true.mp (by decide), ?_, ?_⟩ <;> · rintro c ⟨⟩; decide
    · next h =>
        exact ⟨by simpa using h, fun c hc => hsafe c (mem_of_mem_trimWith hc),
          fun c hc => trimWith_head? hc, fun c hc => rdropWhile_getLast? hc⟩
  rw [ht]
  by_cases hlong : 96 < t.length
  · rw [if_pos hlong]
    have hlen : (t.drop (t.length - 96)).length = 96 := by rw [List.length_drop]; omega
    have hdne : t.drop (t.length - 96) ≠ [] := by intro h0; rw [h0] at hlen; cases hlen
    have hdsafe : ∀ c ∈ t.drop (t.length - 96), safeNameByte c = true :=
      fun c hc => htsafe c ((List.drop_sublist _ t).mem hc)
    have hdlast : ∀ c, (t.drop (t.length - 96)).getLast? = some c → isDotOrSpace c = false := by
      intro c hc
      rw [List.getLast?_drop, if_neg (by omega)] at hc
      exact htlast c hc
    cases hd : t.drop (t.length - 96) with
    | nil => exact absurd hd hdne
    | cons c u =>
        rw [hd] at hlen hdsafe hdlast
        by_cases hc : c = dot
        · subst hc
          rw [List.head?_cons, if_pos rfl]
          refine ⟨by simp, ?_, ?_, ?_, Or.inr ⟨u, rfl, by simpa using hlen⟩⟩
          · intro x hx
            rcases List.mem_append.mp hx with hx | hx
            · exact List.all_eq_true.mp (show (bytes "upload_").all safeNameByte = true by decide)
                x hx
            · exact hdsafe x hx
          · rintro x ⟨⟩; decide
          · intro x hx
            rw [List.getLast?_append_of_ne_nil _ (by simp)] at hx
            exact hdlast x hx
        · rw [if_neg (by simpa using hc)]
          refine ⟨by simp, hdsafe, ?_, hdlast, Or.inl (by omega)⟩
          rintro x ⟨⟩
          exact isDotOrSpace_of_safe (hdsafe c (by simp)) hc
  · rw [if_neg hlong, if_neg fun hd => absurd (hthead dot hd) (by decide)]
    exact ⟨hne, htsafe, hthead, htlast, Or.inl (by omega)⟩

/-- Sanitizing twice is sanitizing once. -/
theorem sanitizeFilename_idem (s : Bytes) :
    Multipart.sanitizeFilename (Multipart.sanitizeFilename s) = Multipart.sanitizeFilename s :=
  (sanitizeFilename_clean s).sanitize_eq

/-- The check of the clean name is the check of the name as sent. -/
theorem isSafeUploadFilename_sanitize (s : Bytes) :
    Multipart.isSafeUploadFilename (Multipart.sanitizeFilename s) =
      Multipart.isSafeUploadFilename s := by
  rw [Multipart.isSafeUploadFilename, Multipart.isSafeUploadFilename, sanitizeFilename_idem]

/-! ## Stored names -/

/-- The name the upload stores a file under, at its `k`-th stored name. -/
def storedNameAt (env : UploadEnv) (k : Nat) (clean : Bytes) : Bytes :=
  decimal (env.micros k) ++ bytes "_" ++ clean

/-- Two stored names agree only when their clock readings do. -/
theorem storedNameAt_ne {env : UploadEnv} (hclock : Function.Injective env.micros) {j k : Nat}
    (hne : j ≠ k) (a b : Bytes) : storedNameAt env j a ≠ storedNameAt env k b := by
  intro h
  have hdigits : ∀ n, (95 : UInt8) ∉ decimal n := fun n hmem =>
    absurd (isDigit_of_mem_decimal hmem) (by decide)
  simp only [storedNameAt, show bytes "_" = [95] from rfl, List.append_assoc,
    List.singleton_append] at h
  have hlen : (decimal (env.micros j)).length = (decimal (env.micros k)).length := by
    have h1 := find?_elem_append (hdigits (env.micros j)) a
    rw [h, find?_elem_append (hdigits (env.micros k)) b] at h1
    exact (Option.some.inj h1).symm
  exact hne (hclock (decimal_injective (List.append_inj h hlen).1))

/-! ## The header of a standard part -/

/-- A quoted parameter is read back by its key, when the key is found where the
parameter stands. -/
theorem dispositionValue_quoted {key before value after : Bytes}
    (hfind : find? (key ++ bytes "=\"") (before ++ key ++ bytes "=\"" ++ value ++ quote :: after)
      = some before.length) (hvalue : quote ∉ value) :
    dispositionValue (before ++ key ++ bytes "=\"" ++ value ++ quote :: after) key = value := by
  rw [dispositionValue, hfind]
  have hdrop : (before ++ key ++ bytes "=\"" ++ value ++ quote :: after).drop
      (before.length + key.length + 2) = value ++ quote :: after := by
    rw [List.append_assoc _ value, show before.length + key.length + 2 =
      (before ++ key ++ bytes "=\"").length by
        simp only [List.length_append, show (bytes "=\"").length = 2 from rfl], List.drop_left]
  simp only [hdrop, find?_elem_append hvalue, List.take_left]

/-- The disposition of a standard part, as its header line gives it. -/
def disposition (p : FormPart) : Bytes :=
  bytes "form-data; name=\"" ++ p.name ++ bytes "\"; filename=\"" ++ p.filename ++ [quote]

theorem dispositionValue_name {p : FormPart} (hname : Quotable p.name) :
    dispositionValue (disposition p) (bytes "name") = p.name := by
  have hsplit : disposition p = bytes "form-data; " ++ bytes "name" ++ bytes "=\"" ++ p.name ++
      quote :: (bytes "; filename=\"" ++ p.filename ++ [quote]) := by
    simp [disposition, bytes, quote]
  rw [hsplit]
  refine dispositionValue_quoted ?_ hname.1
  rw [show bytes "form-data; " ++ bytes "name" ++ bytes "=\"" = bytes "form-data; name=\"" from rfl,
    List.append_assoc]
  exact find?_append (by decide) _

theorem dispositionValue_filename {p : FormPart} (hname : Quotable p.name)
    (hfile : Quotable p.filename) :
    dispositionValue (disposition p) (bytes "filename") = p.filename := by
  have hsplit : disposition p = (bytes "form-data; name=\"" ++ p.name ++ bytes "\"; ") ++
      bytes "filename" ++ bytes "=\"" ++ p.filename ++ quote :: [] := by
    simp [disposition, bytes, quote]
  rw [hsplit]
  refine dispositionValue_quoted ?_ hfile.1
  -- the key is not found before either of the two quotes around the field name
  have htail : find? (bytes "filename=" ++ [quote])
      (bytes "; " ++ bytes "filename" ++ bytes "=\"" ++ p.filename ++ [quote]) = some 2 := by
    rw [show bytes "; " ++ bytes "filename" ++ bytes "=\"" = bytes "; filename=\"" from rfl,
      List.append_assoc]
    exact find?_append (by decide) _
  have hname' : ¬ bytes "filename=" <:+ p.name := by
    intro h
    refine hname.2.2.2 (List.IsInfix.trans ?_ h.isInfix)
    exact ⟨bytes "file", [], rfl⟩
  have hmid := find?_skip (by decide) hname.1 hname' htail
  have hall := find?_skip (x := bytes "form-data; name=") (by decide) (by decide) (by decide) hmid
  have hlen : 2 + (p.name.length + 1) + ((bytes "form-data; name=").length + 1) =
      (bytes "form-data; name=\"" ++ p.name ++ bytes "\"; ").length := by
    simp only [List.length_append, show (bytes "form-data; name=").length = 16 from rfl,
      show (bytes "form-data; name=\"").length = 17 from rfl,
      show (bytes "\"; ").length = 3 from rfl]
    omega
  rw [hlen] at hall
  rw [← hall]
  congr 1
  simp [bytes, quote]

/-- A header line adds what stands before and behind its first colon. -/
theorem addPartHeader_colon {name : Bytes} (hname : (58 : UInt8) ∉ name) (value : Bytes)
    (headers : List (Bytes × Bytes)) :
    addPartHeader headers (name ++ 58 :: value) =
      put (lowercase (name.rdropWhile isSpace)) (trimWith isBlank value) headers := by
  have hdrop : (name ++ 58 :: value).drop (name.length + 1) = value := by
    rw [List.append_cons, show name.length + 1 = (name ++ [58]).length by simp, List.drop_left]
  simp only [addPartHeader, find?_elem_append hname, List.take_left, hdrop]

/-- The header line of a disposition names what the disposition does. -/
theorem partNames_disposition {value : Bytes} (hcr : cr ∉ value)
    (htrim : trimWith isBlank value = value) :
    partNames (bytes "Content-Disposition: " ++ value ++ crlf) =
      (dispositionValue value (bytes "name"), dispositionValue value (bytes "filename")) := by
  have hline : cr ∉ bytes "Content-Disposition: " ++ value := by
    rw [List.mem_append, not_or]
    exact ⟨by decide, hcr⟩
  have hsplit : splitCrlf (bytes "Content-Disposition: " ++ value ++ crlf) =
      [bytes "Content-Disposition: " ++ value, []] := by
    have h := splitCrlf_append (bytes "Content-Disposition: " ++ value) []
    rwa [List.append_nil, splitCrlf_of_not_mem hline] at h
  have hheader : bytes "Content-Disposition: " ++ value =
      bytes "Content-Disposition" ++ 58 :: (space :: value) := by
    simp [bytes, space]
  have htrim' : trimWith isBlank (space :: value) = value := by
    rw [trimWith, List.dropWhile_cons_of_pos (by decide)]
    exact htrim
  have hput : parsePartHeaders (bytes "Content-Disposition: " ++ value ++ crlf) =
      [(bytes "content-disposition", value)] := by
    rw [parsePartHeaders, hsplit, List.foldl_cons, List.foldl_cons, List.foldl_nil, hheader,
      addPartHeader_colon (by decide), htrim']
    rfl
  rw [partNames, hput, List.lookup_cons, beq_self_eq_true]

/-- The header block of a standard part names exactly what it was written from. -/
theorem partNames_header {p : FormPart} (hname : Quotable p.name)
    (hfile : Quotable p.filename) :
    partNames (p.header ++ crlf) = (p.name, p.filename) := by
  have hcr : cr ∉ disposition p := by
    simp only [disposition, List.mem_append, List.mem_singleton]
    rintro ((((h | h) | h) | h) | h)
    · exact absurd h (by decide)
    · exact hname.2.1 h
    · exact absurd h (by decide)
    · exact hfile.2.1 h
    · exact absurd h (by decide)
  have hheader : p.header = bytes "Content-Disposition: " ++ disposition p := by
    simp [FormPart.header, disposition, bytes]
  have htrim : trimWith isBlank (disposition p) = disposition p :=
    trimWith_eq_self (x := 102) (s := (bytes "form-data; name=\"").drop 1 ++ p.name ++
      bytes "\"; filename=\"" ++ p.filename) (by decide) (by decide)
  rw [hheader, partNames_disposition hcr htrim, dispositionValue_name hname,
    dispositionValue_filename hname hfile]

end HydrogenHttpd.Ref
