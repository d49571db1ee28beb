import HydrogenHttpd.Ref.Security

/-!
# Queries of targets

`resolveSafePath` cuts a target at its first question mark before it decodes
the path, so what file a target names does not depend on its query. Two of the
screening tests come before the cut, though, and read the query as well: the
search for a backslash, and the search for encoded dots and separators, which
is meant for a text that has been decoded once. A target whose path would
resolve is refused when its query has either, as an ordinary form field with an
encoded slash has; any other query changes nothing.
-/

namespace HydrogenHttpd.Ref.security

open Base

/-- The screening refuses the path of a target, whatever the file system
answers. -/
def Screened (p : Bytes) : Prop :=
  hasSuspiciousTarget p = true ∨ containsDangerousResidualEncoding p = true ∨
    containsDangerousResidualEncoding (urlDecode p) = true ∨
    0 ∈ urlDecode p ∨ 92 ∈ urlDecode p

instance (p : Bytes) : Decidable (Screened p) := by unfold Screened; infer_instance

/-- The query has none of what the tests in front of the cut look for. -/
def PlainQuery (q : Bytes) : Prop :=
  92 ∉ q ∧ containsDangerousResidualEncoding q = false

/-- The question mark is in no encoding, so an encoding is found in the path or
in the query. -/
theorem containsDangerousResidualEncoding_query (p q : Bytes) :
    containsDangerousResidualEncoding (p ++ 63 :: q) =
      (containsDangerousResidualEncoding p || containsDangerousResidualEncoding q) := by
  have hcut : lowercase (p ++ 63 :: q) = lowercase p ++ 63 :: lowercase q := by
    rw [lowercase, List.map_append, List.map_cons]
    rfl
  have hfound {pat : Bytes} (hne : pat ≠ []) (hpat : 63 ∉ pat) :
      (find? pat (lowercase p ++ 63 :: lowercase q)).isSome =
        ((find? pat (lowercase p)).isSome || (find? pat (lowercase q)).isSome) := by
    rw [find?_beyond hne hpat]
    cases find? pat (lowercase p) with
    | some i => rfl
    | none => simp
  simp only [containsDangerousResidualEncoding, hcut]
  rw [hfound (by decide) (by decide), hfound (by decide) (by decide),
    hfound (by decide) (by decide)]
  generalize (find? (bytes "%2e") (lowercase p)).isSome = a
  generalize (find? (bytes "%2f") (lowercase p)).isSome = b
  grind

section
variable {p q : Bytes} (hquery : ∀ c ∈ q, 33 ≤ c ∧ c ≤ 126)
    (hlength : (p ++ 63 :: q).length ≤ 2048)
include hquery hlength

theorem hasSuspiciousTarget_query :
    hasSuspiciousTarget (p ++ 63 :: q) = (hasSuspiciousTarget p || q.contains 92) := by
  have hnul : (0 : UInt8) ∉ q := fun h => absurd (hquery 0 h).1 (by decide)
  cases p with
  | nil => simp [hasSuspiciousTarget, slash]
  | cons c p =>
      have hlen : ¬ 2048 < (c :: p).length := by
        simp only [List.length_append, List.length_cons] at hlength ⊢
        omega
      have hlen' : ¬ 2048 < (c :: p ++ 63 :: q).length := by omega
      rw [hasSuspiciousTarget, hasSuspiciousTarget, if_neg (by simp), if_neg hlen',
        if_neg (List.cons_ne_nil c p), if_neg hlen]
      by_cases hc : c = slash
      · simp [hc, hnul, Bool.or_assoc]
      · simp [hc]

end

theorem decodedTarget_of_path {p : Bytes} (hp : 63 ∉ p) :
    decodedTarget p =
      if Screened p then none
      else
        let target := (urlDecode p).dropWhile (· = slash)
        some (if target = [] then bytes "index.html" else target) := by
  have hcut : find? [63] p = none := find?_elem_eq_none.mpr hp
  simp only [decodedTarget, hcut, Screened, List.contains_iff_mem]
  grind

/-- The path of a target does not depend on the query, but for the tests in
front of the cut. -/
theorem decodedTarget_query {p q : Bytes} (hp : 63 ∉ p) (hquery : ∀ c ∈ q, 33 ≤ c ∧ c ≤ 126)
    (hlength : (p ++ 63 :: q).length ≤ 2048) [Decidable (PlainQuery q)] :
    decodedTarget (p ++ 63 :: q) = if PlainQuery q then decodedTarget p else none := by
  have hcut : find? [63] (p ++ 63 :: q) = some p.length := find?_elem_append hp q
  have hpath : find? [63] p = none := find?_elem_eq_none.mpr hp
  rw [decodedTarget, hasSuspiciousTarget_query hquery hlength,
    containsDangerousResidualEncoding_query]
  simp only [hcut, List.take_left]
  rw [decodedTarget]
  simp only [hpath, PlainQuery]
  by_cases hq : 92 ∈ q
  · simp [hq]
  · cases hd : containsDangerousResidualEncoding q
    · simp [hq]
    · simp

theorem resolveSafePath_of_none (files : Files) (documentRoot : Path) {target : Bytes}
    (h : decodedTarget target = none) : resolveSafePath files documentRoot target = .ok none := by
  rw [resolveSafePath, h]

/-- A file system of one file, to which every path leads. -/
def oneFileEverywhere : Files where
  weaklyCanonical _ := .ok (Path.ofBytes (bytes "/file"))
  isDirectory _ := .ok false
  found _ := .ok true
  isRegularFile _ := .ok true
  fileSize _ := some 0
  lastWriteTime _ := some 0
  content _ := some []

theorem resolveSafePath_oneFileEverywhere (documentRoot : Path) {target path : Bytes}
    (h : decodedTarget target = some path) :
    resolveSafePath oneFileEverywhere documentRoot target =
      .ok (some (Path.ofBytes (bytes "/file"))) := by
  rw [resolveSafePath, h]
  have hroot : startsWithPath oneFileEverywhere (Path.ofBytes (bytes "/file"))
      (Path.ofBytes (bytes "/file")) = .ok true := by decide
  simp only [oneFileEverywhere] at hroot ⊢
  simp [hroot]

/-! ## The main result -/

/-- A target resolves as its path does, on every file system, exactly when the
query has no backslash and no encoded dot or separator, or the screening
refuses the path itself. -/
theorem resolveSafePath_query_iff {p q : Bytes} (hp : 63 ∉ p)
    (hquery : ∀ c ∈ q, 33 ≤ c ∧ c ≤ 126) (hlength : (p ++ 63 :: q).length ≤ 2048) :
    (∀ (files : Files) (documentRoot : Path),
        resolveSafePath files documentRoot (p ++ 63 :: q) =
          resolveSafePath files documentRoot p) ↔
      PlainQuery q ∨ Screened p := by
  classical
  have htarget := decodedTarget_query hp hquery hlength
  constructor
  · intro hall
    by_contra hno
    obtain ⟨hq, hpath⟩ := not_or.mp hno
    rw [if_neg hq] at htarget
    have hfound := decodedTarget_of_path hp
    rw [if_neg hpath] at hfound
    have hsame := hall oneFileEverywhere (Path.ofBytes (bytes "/"))
    rw [resolveSafePath_of_none _ _ htarget, resolveSafePath_oneFileEverywhere _ hfound] at hsame
    cases hsame
  · rintro (hq | hpath) files documentRoot
    · rw [if_pos hq] at htarget
      rw [resolveSafePath, resolveSafePath, htarget]
    · have hrefused := decodedTarget_of_path hp
      rw [if_pos hpath] at hrefused
      rw [hrefused, ite_self] at htarget
      rw [resolveSafePath_of_none _ _ htarget, resolveSafePath_of_none _ _ hrefused]

/-- `/a?x=1` resolves as `/a` does. -/
theorem resolveSafePath_query_iff_plain :
    resolveSafePath oneFileEverywhere (Path.ofBytes (bytes "/")) (bytes "/a" ++ 63 :: bytes "x=1") =
      resolveSafePath oneFileEverywhere (Path.ofBytes (bytes "/")) (bytes "/a") :=
  (resolveSafePath_query_iff (by decide) (by decide +kernel) (by decide)).mpr
    (.inl ⟨by decide, by decide +kernel⟩) oneFileEverywhere (Path.ofBytes (bytes "/"))

/-- `/a?next=%2Fhome` is refused where `/a` is a file. -/
theorem resolveSafePath_encoded_query :
    resolveSafePath oneFileEverywhere (Path.ofBytes (bytes "/"))
        (bytes "/a" ++ 63 :: bytes "next=%2Fhome") = .ok none ∧
      resolveSafePath oneFileEverywhere (Path.ofBytes (bytes "/")) (bytes "/a") =
        .ok (some (Path.ofBytes (bytes "/file"))) := by
  have hdecoded : urlDecode (bytes "/a") = bytes "/a" := by
    rw [show bytes "/a" = [47, 97] by decide, urlDecode.eq_def]
  have hscreened : ¬ Screened (bytes "/a") := by
    rw [Screened, hdecoded]
    decide
  have hpath := decodedTarget_of_path (p := bytes "/a") (by decide)
  rw [if_neg hscreened] at hpath
  refine ⟨resolveSafePath_of_none _ _ ?_, resolveSafePath_oneFileEverywhere _ hpath⟩
  decide

end HydrogenHttpd.Ref.security
