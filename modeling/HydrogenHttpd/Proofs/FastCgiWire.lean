import HydrogenHttpd.Base.Chunks
import HydrogenHttpd.Ref.FastCgiClient
import HydrogenHttpd.Spec.FastCgi

/-!
# The bytes of a FastCGI request

A reader of the record format gets back from the bytes of a request what went
into them: the records one by one (`readRecord_record`), the streams they make
up, and in the parameter stream the pairs (`readPair_encode`). The chunks of a
stream are cut without regard to the pairs, so the pairs are read from the
joined contents.
-/

namespace HydrogenHttpd.Ref

open Base Spec FastCgiClient

theorem ofNat_toNat (n : Nat) : (UInt8.ofNat n).toNat = n % 256 := by
  simp

/-- Nonempty pieces are no more than the bytes they make up. -/
theorem length_le_flatMap_length {α β : Type} (xs : List α) (f : α → List β)
    (h : ∀ x ∈ xs, f x ≠ []) : xs.length ≤ (xs.flatMap f).length := by
  rw [List.length_flatMap]
  have hsum := List.card_nsmul_le_sum (xs.map fun x => (f x).length) 1 (by
    intro n hn
    obtain ⟨x, hx, hlength⟩ := List.mem_map.mp hn
    rw [← hlength]
    exact List.length_pos_of_ne_nil (h x hx))
  simpa using hsum

/-! ## Records -/

/-- The record that `record` writes. -/
def fcgiRecord (type : UInt8) (content : Bytes) : FcgiRecord :=
  { version := 1
    type := type
    requestId := 1
    content := content
    padding := (8 - content.length % 8) % 8 }

theorem fcgiRecord_size (type : UInt8) (content : Bytes) :
    (fcgiRecord type content).size % 8 = 0 := by
  simp only [FcgiRecord.size, fcgiRecord]
  omega

theorem readRecord_record (type : UInt8) {content : Bytes} (h : content.length < 65536)
    (rest : Bytes) :
    readRecord (record type requestId content ++ rest) = some (fcgiRecord type content, rest) := by
  have hlength : (UInt8.ofNat (content.length >>> 8)).toNat * 256
      + (UInt8.ofNat content.length).toNat = content.length := by
    rw [ofNat_toNat, ofNat_toNat, Nat.shiftRight_eq_div_pow]
    omega
  have hpadding : (UInt8.ofNat ((8 - content.length % 8) % 8)).toNat
      = (8 - content.length % 8) % 8 := by
    rw [ofNat_toNat]
    omega
  simp only [record, List.cons_append, List.nil_append, List.append_assoc, readRecord, hlength,
    hpadding]
  rw [if_neg (by simp)]
  have hdrop : (content ++ (List.replicate ((8 - content.length % 8) % 8) 0 ++ rest)).drop
      (content.length + (8 - content.length % 8) % 8) = rest := by
    rw [← List.append_assoc]
    exact List.drop_left' (by simp)
  rw [hdrop, List.take_left]
  rfl

theorem record_ne_nil (type : UInt8) (content : Bytes) : record type requestId content ≠ [] := by
  simp [record]

/-- Written records are read back, whatever their number. -/
theorem splitRecords_go (rows : List (UInt8 × Bytes)) (h : ∀ row ∈ rows, row.2.length < 65536)
    {fuel : Nat} (hfuel : rows.length ≤ fuel) :
    splitRecords.go fuel (rows.flatMap fun row => record row.1 requestId row.2) =
      some (rows.map fun row => fcgiRecord row.1 row.2) := by
  induction rows generalizing fuel with
  | nil => cases fuel <;> rfl
  | cons row rows ih =>
      obtain ⟨fuel, rfl⟩ : ∃ n, fuel = n + 1 := ⟨fuel - 1, by simp at hfuel; omega⟩
      rw [List.flatMap_cons]
      have hread := readRecord_record row.1 (h row List.mem_cons_self)
        (rows.flatMap fun row => record row.1 requestId row.2)
      have hrest := ih (fun row hrow => h row (List.mem_cons_of_mem _ hrow))
        (by simpa using hfuel)
      cases hstream : record row.1 requestId row.2 ++
          rows.flatMap fun row => record row.1 requestId row.2 with
      | nil =>
          rw [List.append_eq_nil_iff] at hstream
          exact absurd hstream.1 (record_ne_nil _ _)
      | cons b bs =>
          rw [hstream] at hread
          rw [splitRecords.go, hread]
          simp only [hrest, Option.map_some, List.map_cons]

theorem splitRecords_records (rows : List (UInt8 × Bytes))
    (h : ∀ row ∈ rows, row.2.length < 65536) :
    splitRecords (rows.flatMap fun row => record row.1 requestId row.2) =
      some (rows.map fun row => fcgiRecord row.1 row.2) := by
  refine splitRecords_go rows h ?_
  exact length_le_flatMap_length rows _ fun row _ => record_ne_nil _ _

/-! ## Streams -/

/-- The records of `buildStream`, with their contents. -/
def streamRows (type : UInt8) (content : Bytes) : List (UInt8 × Bytes) :=
  (content.toChunks 65535).map (fun chunk => (type, chunk)) ++ [(type, [])]

theorem buildStream_rows (type : UInt8) (content : Bytes) :
    buildStream type content =
      (streamRows type content).flatMap fun row => record row.1 requestId row.2 := by
  rw [buildStream, streamRows, List.flatMap_append, List.flatMap_map]
  simp

theorem streamRows_length (type : UInt8) (content : Bytes) :
    ∀ row ∈ streamRows type content, row.2.length < 65536 := by
  intro row hrow
  rw [streamRows, List.mem_append, List.mem_map, List.mem_singleton] at hrow
  rcases hrow with ⟨chunk, hchunk, hrow⟩ | hrow
  · have hle := ((toChunks_spec (show 0 < 65535 by omega) content).2 chunk hchunk).2
    rw [← hrow]
    simp only []
    omega
  · rw [hrow]
    simp

theorem streamRows_isStream (type : UInt8) (content : Bytes) :
    IsStream type ((streamRows type content).map fun row => fcgiRecord row.1 row.2) := by
  refine ⟨(content.toChunks 65535).map (fcgiRecord type), fcgiRecord type [], ?_, ?_, rfl, rfl⟩
  · simp [streamRows]
  · intro r hr
    obtain ⟨chunk, hchunk, hr⟩ := List.mem_map.mp hr
    rw [← hr]
    exact ⟨rfl, (toChunks_spec (show 0 < 65535 by omega) content).2 chunk hchunk⟩

theorem streamRows_content (type : UInt8) (content : Bytes) :
    contentOf ((streamRows type content).map fun row => fcgiRecord row.1 row.2) = content := by
  have hflatten := (toChunks_spec (show 0 < 65535 by omega) content).1
  rw [contentOf, streamRows, List.map_append, List.map_map, List.flatMap_append, List.flatMap_map]
  simp only [Function.comp_apply, fcgiRecord, List.map_cons, List.map_nil, List.flatMap_cons,
    List.flatMap_nil, List.append_nil]
  rw [List.flatMap_id', hflatten]

/-! ## Parameters -/

theorem appendLength_ne_nil (n : Nat) : appendLength n ≠ [] := by
  rw [appendLength]
  split <;> simp

theorem readLength_appendLength {n : Nat} (h : n < 2 ^ 31) (rest : Bytes) :
    readLength (appendLength n ++ rest) = some (n, rest) := by
  rw [appendLength]
  split
  · next hshort =>
      have hbyte : (UInt8.ofNat n).toNat = n := by
        rw [ofNat_toNat]
        omega
      simp only [List.cons_append, List.nil_append, readLength, hbyte, if_pos hshort]
  · next hlong =>
      have htop : (UInt8.ofNat (n >>> 24 ||| 0x80)).toNat = n / 2 ^ 24 + 128 := by
        have hor := Nat.two_pow_add_eq_or_of_lt (show n / 2 ^ 24 < 2 ^ 7 by omega) 1
        rw [ofNat_toNat, Nat.shiftRight_eq_div_pow, Nat.lor_comm, ← hor]
        omega
      simp only [List.cons_append, List.nil_append, readLength, htop]
      rw [if_neg (by omega)]
      simp only [ofNat_toNat, Nat.shiftRight_eq_div_pow, Option.some.injEq, Prod.mk.injEq, and_true]
      omega

/-- The bytes of one pair. -/
def encodePair (p : Bytes × Bytes) : Bytes :=
  appendLength p.1.length ++ appendLength p.2.length ++ p.1 ++ p.2

theorem readPair_encode {p : Bytes × Bytes} (h : p.1.length < 2 ^ 31 ∧ p.2.length < 2 ^ 31)
    (rest : Bytes) : readPair (encodePair p ++ rest) = some (p, rest) := by
  simp only [encodePair, List.append_assoc, readPair, readLength_appendLength h.1,
    readLength_appendLength h.2]
  rw [if_neg (by simp)]
  have hvalue : (p.1 ++ (p.2 ++ rest)).drop p.1.length = p.2 ++ rest := List.drop_left
  have hrest : (p.1 ++ (p.2 ++ rest)).drop (p.1.length + p.2.length) = rest := by
    rw [← List.append_assoc]
    exact List.drop_left' (by simp)
  rw [hvalue, hrest, List.take_left, List.take_left]

theorem encodePair_ne_nil (p : Bytes × Bytes) : encodePair p ≠ [] := by
  simp [encodePair, appendLength_ne_nil]

theorem decodePairs_go (pairs : List (Bytes × Bytes))
    (h : ∀ p ∈ pairs, p.1.length < 2 ^ 31 ∧ p.2.length < 2 ^ 31) {fuel : Nat}
    (hfuel : pairs.length ≤ fuel) :
    decodePairs.go fuel (pairs.flatMap encodePair) = some pairs := by
  induction pairs generalizing fuel with
  | nil => cases fuel <;> rfl
  | cons p pairs ih =>
      obtain ⟨fuel, rfl⟩ : ∃ n, fuel = n + 1 := ⟨fuel - 1, by simp at hfuel; omega⟩
      rw [List.flatMap_cons]
      have hread := readPair_encode (h p List.mem_cons_self) (pairs.flatMap encodePair)
      have hrest := ih (fun q hq => h q (List.mem_cons_of_mem _ hq))
        (by simpa using hfuel)
      cases hencoded : encodePair p ++ pairs.flatMap encodePair with
      | nil =>
          rw [List.append_eq_nil_iff] at hencoded
          exact absurd hencoded.1 (encodePair_ne_nil p)
      | cons b bs =>
          rw [hencoded] at hread
          rw [decodePairs.go, hread]
          simp only [hrest, Option.map_some]

/-- The encoded pairs are read back in the order they were written in. -/
theorem decodePairs_encode (pairs : List (Bytes × Bytes))
    (h : ∀ p ∈ pairs, p.1.length < 2 ^ 31 ∧ p.2.length < 2 ^ 31) :
    decodePairs (encodeNameValuePairs pairs) = some pairs := by
  refine decodePairs_go pairs h ?_
  exact length_le_flatMap_length pairs encodePair fun p _ => encodePair_ne_nil p

/-! ## The request -/

/-- The rows of a whole request. -/
def requestRows (pairs : List (Bytes × Bytes)) (body : Bytes) : List (UInt8 × Bytes) :=
  (beginRequest, [0, 1, 0, 0, 0, 0, 0, 0]) ::
    (streamRows params (encodeNameValuePairs pairs) ++ streamRows stdin body)

theorem requestRows_length (pairs : List (Bytes × Bytes)) (body : Bytes) :
    ∀ row ∈ requestRows pairs body, row.2.length < 65536 := by
  intro row hrow
  rw [requestRows, List.mem_cons, List.mem_append] at hrow
  rcases hrow with hrow | hrow | hrow
  · rw [hrow]
    simp
  · exact streamRows_length _ _ row hrow
  · exact streamRows_length _ _ row hrow

theorem request_rows (pairs : List (Bytes × Bytes)) (body : Bytes) :
    buildBeginRequest ++ buildParams pairs ++ buildStdin body =
      (requestRows pairs body).flatMap fun row => record row.1 requestId row.2 := by
  rw [requestRows, List.flatMap_cons, List.flatMap_append, ← buildStream_rows,
    ← buildStream_rows, List.append_assoc]
  rfl

/-- A request loses nothing on the wire. Its bytes are whole records, each a
multiple of 8 bytes long and of request 1: one that begins the request, the
parameter stream and the input stream. The parameters, in the order the map
yielded them, and the body are read back from the contents. -/
theorem request_readBack (pairs : List (Bytes × Bytes)) (body : Bytes)
    (h : ∀ p ∈ pairs, p.1.length < 2 ^ 31 ∧ p.2.length < 2 ^ 31) :
    ∃ first paramRecords stdinRecords,
      splitRecords (buildBeginRequest ++ buildParams pairs ++ buildStdin body) =
        some (first :: (paramRecords ++ stdinRecords)) ∧
      (∀ r ∈ first :: (paramRecords ++ stdinRecords),
        r.version = 1 ∧ r.requestId = 1 ∧ r.size % 8 = 0) ∧
      first.type = beginRequest ∧ first.content = [0, 1, 0, 0, 0, 0, 0, 0] ∧
      IsStream params paramRecords ∧ decodePairs (contentOf paramRecords) = some pairs ∧
      IsStream stdin stdinRecords ∧ contentOf stdinRecords = body := by
  have hsplit := splitRecords_records (requestRows pairs body) (requestRows_length pairs body)
  rw [← request_rows] at hsplit
  refine ⟨fcgiRecord beginRequest [0, 1, 0, 0, 0, 0, 0, 0],
    (streamRows params (encodeNameValuePairs pairs)).map fun row => fcgiRecord row.1 row.2,
    (streamRows stdin body).map fun row => fcgiRecord row.1 row.2, ?_, ?_, rfl, rfl, ?_, ?_, ?_,
    ?_⟩
  · rw [hsplit, requestRows, List.map_cons, List.map_append]
  · intro r hr
    rw [← List.map_append, List.mem_cons, List.mem_map] at hr
    rcases hr with hr | ⟨row, -, hr⟩
    · rw [hr]
      exact ⟨rfl, rfl, fcgiRecord_size _ _⟩
    · rw [← hr]
      exact ⟨rfl, rfl, fcgiRecord_size _ _⟩
  · exact streamRows_isStream params (encodeNameValuePairs pairs)
  · rw [streamRows_content]
    exact decodePairs_encode pairs h
  · exact streamRows_isStream stdin body
  · exact streamRows_content stdin body

theorem request_readBack_sample :
    ∃ first paramRecords stdinRecords,
      splitRecords (buildBeginRequest ++
          buildParams [(bytes "REQUEST_METHOD", bytes "GET"), (bytes "QUERY_STRING", [])] ++
          buildStdin (bytes "a=1")) =
        some (first :: (paramRecords ++ stdinRecords)) ∧
      (∀ r ∈ first :: (paramRecords ++ stdinRecords),
        r.version = 1 ∧ r.requestId = 1 ∧ r.size % 8 = 0) ∧
      first.type = beginRequest ∧ first.content = [0, 1, 0, 0, 0, 0, 0, 0] ∧
      IsStream params paramRecords ∧
      decodePairs (contentOf paramRecords) =
        some [(bytes "REQUEST_METHOD", bytes "GET"), (bytes "QUERY_STRING", [])] ∧
      IsStream stdin stdinRecords ∧ contentOf stdinRecords = bytes "a=1" :=
  request_readBack _ _ (by decide)

end HydrogenHttpd.Ref
