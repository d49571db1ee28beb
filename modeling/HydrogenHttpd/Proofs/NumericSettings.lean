import HydrogenHttpd.Base.Lines
import HydrogenHttpd.Base.Text
import HydrogenHttpd.Ref.Config

/-!
# What a numeric setting says and what is stored

A numeric key reads as much of its text as is a number, and stores that number
in as many bits as its field has. `Misread` names the texts of which this makes
something else than they say: a number with other characters behind it, or one
that the reader takes and the field does not hold. Where no text of a
configuration is misread, and where `worker_threads` does not ask for the
default, every field is what its last line says (`numbers_exact_iff`).

The fields are compared as one list, so that a line changes one place of it or
none (`settings_rows`).
-/

namespace HydrogenHttpd.Ref

open Base

/-! ## The numeric fields -/

/-- The types of the numeric fields. -/
inductive NumberType where
  | ushort
  | uint
  | size
  | int
  deriving DecidableEq, Repr

namespace NumberType

/-- The numbers a field of this type holds. -/
def Holds : NumberType → Int → Prop
  | ushort, n => 0 ≤ n ∧ n < 2 ^ 16
  | uint, n => 0 ≤ n ∧ n < 2 ^ 32
  | size, n => 0 ≤ n ∧ n < 2 ^ 64
  | int, n => -2 ^ 31 ≤ n ∧ n < 2 ^ 31

/-- The numbers its reader takes: `stoi` those of an `int`, the unsigned readers
those of 64 bits with any sign. -/
def Takes : NumberType → Int → Prop
  | ushort, n | int, n => -2 ^ 31 ≤ n ∧ n < 2 ^ 31
  | uint, n | size, n => -2 ^ 64 < n ∧ n < 2 ^ 64

/-- What the field is set to. -/
def stored : NumberType → Int → Int
  | ushort, n => n % 2 ^ 16
  | uint, n => n % 2 ^ 32
  | size, n => n % 2 ^ 64
  | int, n => n

/-- The conversion of a text: what it throws on, and what it stores. -/
def read : NumberType → Bytes → Option Int
  | ushort, v => (stoi v).map (· % 2 ^ 16)
  | uint, v => (stoull v).map fun n : Nat => (n : Int) % 2 ^ 32
  | size, v => (stoull v).map fun n : Nat => (n : Int)
  | int, v => stoi v

end NumberType

/-- The numeric keys, with the types of their fields and the fields. -/
def numericFields : List (String × NumberType × (ServerConfig → Int)) :=
  [("port", .ushort, fun c => c.port),
   ("tls_port", .ushort, fun c => c.tlsPort),
   ("public_https_port", .ushort, fun c => c.publicHttpsPort),
   ("https_redirect_status", .int, fun c => c.httpsRedirectStatus),
   ("audit_rotate_bytes", .size, fun c => c.auditRotateBytes),
   ("audit_rotate_keep", .size, fun c => c.auditRotateKeep),
   ("auth_reload_interval_seconds", .uint, fun c => c.authReloadIntervalSeconds),
   ("max_request_bytes", .size, fun c => c.maxRequestBytes),
   ("max_body_bytes", .size, fun c => c.maxBodyBytes),
   ("max_header_line_bytes", .size, fun c => c.maxHeaderLineBytes),
   ("max_headers", .size, fun c => c.maxHeaders),
   ("max_uri_bytes", .size, fun c => c.maxUriBytes),
   ("max_method_bytes", .size, fun c => c.maxMethodBytes),
   ("rate_limit_per_minute", .size, fun c => c.rateLimitPerMinute),
   ("rate_limiter_shards", .size, fun c => c.rateLimiterShards),
   ("read_timeout_seconds", .uint, fun c => c.readTimeoutSeconds),
   ("io_threads", .size, fun c => c.ioThreads),
   ("worker_threads", .size, fun c => c.workerThreads),
   ("worker_thread_multiplier", .size, fun c => c.workerThreadMultiplier),
   ("max_pending_connections", .size, fun c => c.maxPendingConnections),
   ("listen_backlog", .int, fun c => c.listenBacklog),
   ("socket_receive_buffer_bytes", .int, fun c => c.socketReceiveBufferBytes),
   ("socket_send_buffer_bytes", .int, fun c => c.socketSendBufferBytes),
   ("access_log_sample_rate", .size, fun c => c.accessLogSampleRate),
   ("access_log_queue_capacity", .size, fun c => c.accessLogQueueCapacity),
   ("access_log_flush_interval_ms", .uint, fun c => c.accessLogFlushIntervalMs),
   ("static_cache_shards", .size, fun c => c.staticCacheShards),
   ("static_cache_max_entries", .size, fun c => c.staticCacheMaxEntries),
   ("static_cache_max_bytes", .size, fun c => c.staticCacheMaxBytes),
   ("static_cache_max_file_bytes", .size, fun c => c.staticCacheMaxFileBytes),
   ("static_cache_revalidate_ms", .uint, fun c => c.staticCacheRevalidateMs),
   ("max_htaccess_depth", .size, fun c => c.maxHtaccessDepth),
   ("php_fastcgi_port", .ushort, fun c => c.phpFastcgiPort),
   ("php_fastcgi_connect_timeout_seconds", .uint, fun c => c.phpFastcgiConnectTimeoutSeconds),
   ("php_fastcgi_read_timeout_seconds", .uint, fun c => c.phpFastcgiReadTimeoutSeconds),
   ("max_multipart_parts", .size, fun c => c.maxMultipartParts),
   ("max_upload_file_bytes", .size, fun c => c.maxUploadFileBytes),
   ("max_upload_field_bytes", .size, fun c => c.maxUploadFieldBytes)]

/-- What a configuration has in its numeric fields. -/
def numbers (config : ServerConfig) : List Int := numericFields.map fun field => field.2.2 config

/-! ## One line -/

/-- A row of the table sets the field of its key, or no numeric field. -/
def RowSets (row : String × Setting) : Prop :=
  (∃ i type, (numericFields[i]?).map (fun field => (field.1, field.2.1)) = some (row.1, type) ∧
    ∀ v c c', row.2 v c = .ok c' →
      ∃ n, type.read v = some n ∧ numbers c' = (numbers c).set i n) ∨
  row.1 ∉ numericFields.map (·.1) ∧ ∀ v c c', row.2 v c = .ok c' → numbers c' = numbers c

section Rows

variable {key : String}

theorem rowSets_ushort {set : ServerConfig → Nat → ServerConfig} (i : Nat)
    (hkey : (numericFields[i]?).map (fun field => (field.1, field.2.1)) = some (key, .ushort))
    (hset : ∀ c x, numbers (set c x) = (numbers c).set i x) :
    RowSets (key, fun v c => ushortKey v c set) := by
  refine Or.inl ⟨i, .ushort, hkey, fun v c c' h => ?_⟩
  simp only [ushortKey, intKey] at h
  split at h
  · cases h
  · next n hn =>
      cases h
      refine ⟨n % 2 ^ 16, by rw [NumberType.read, hn]; rfl, ?_⟩
      rw [hset, Int.toNat_of_nonneg (Int.emod_nonneg _ (by decide))]

theorem rowSets_int {set : ServerConfig → Int → ServerConfig} (i : Nat)
    (hkey : (numericFields[i]?).map (fun field => (field.1, field.2.1)) = some (key, .int))
    (hset : ∀ c x, numbers (set c x) = (numbers c).set i x) :
    RowSets (key, fun v c => intKey v c set) := by
  refine Or.inl ⟨i, .int, hkey, fun v c c' h => ?_⟩
  simp only [intKey] at h
  split at h
  · cases h
  · next n hn =>
      cases h
      exact ⟨n, hn, hset c n⟩

theorem rowSets_size {set : ServerConfig → Nat → ServerConfig} (i : Nat)
    (hkey : (numericFields[i]?).map (fun field => (field.1, field.2.1)) = some (key, .size))
    (hset : ∀ c x, numbers (set c x) = (numbers c).set i x) :
    RowSets (key, fun v c => sizeKey v c set) := by
  refine Or.inl ⟨i, .size, hkey, fun v c c' h => ?_⟩
  simp only [sizeKey] at h
  split at h
  · cases h
  · next n hn =>
      cases h
      exact ⟨n, by rw [NumberType.read, hn]; rfl, hset c n⟩

theorem rowSets_uint {set : ServerConfig → Nat → ServerConfig} (i : Nat)
    (hkey : (numericFields[i]?).map (fun field => (field.1, field.2.1)) = some (key, .uint))
    (hset : ∀ c x, numbers (set c x) = (numbers c).set i x) :
    RowSets (key, fun v c => uintKey v c set) := by
  refine Or.inl ⟨i, .uint, hkey, fun v c c' h => ?_⟩
  simp only [uintKey] at h
  split at h
  · cases h
  · next n hn =>
      cases h
      refine ⟨(n : Int) % 2 ^ 32, by rw [NumberType.read, hn]; rfl, ?_⟩
      rw [hset]
      rfl

theorem rowSets_bool {set : ServerConfig → Bool → ServerConfig}
    (hkey : key ∉ numericFields.map (·.1)) (hset : ∀ c x, numbers (set c x) = numbers c) :
    RowSets (key, fun v c => boolKey v c set) := by
  refine Or.inr ⟨hkey, fun v c c' h => ?_⟩
  cases h
  exact hset c _

theorem rowSets_text {set : ServerConfig → Bytes → ServerConfig}
    (hkey : key ∉ numericFields.map (·.1)) (hset : ∀ c x, numbers (set c x) = numbers c) :
    RowSets (key, fun v c => textKey v c set) := by
  refine Or.inr ⟨hkey, fun v c c' h => ?_⟩
  cases h
  exact hset c _

theorem rowSets_path {set : ServerConfig → Path → ServerConfig}
    (hkey : key ∉ numericFields.map (·.1)) (hset : ∀ c x, numbers (set c x) = numbers c) :
    RowSets (key, fun v c => pathKey v c set) := by
  refine Or.inr ⟨hkey, fun v c c' h => ?_⟩
  cases h
  exact hset c _

end Rows

theorem settings_rows : ∀ row ∈ settings, RowSets row := by
  simp only [settings, List.forall_mem_cons]
  refine ⟨rowSets_ushort 0 rfl fun _ _ => rfl, rowSets_bool (by decide) fun _ _ => rfl,
    rowSets_ushort 1 rfl fun _ _ => rfl, rowSets_ushort 2 rfl fun _ _ => rfl,
    rowSets_path (by decide) fun _ _ => rfl, rowSets_path (by decide) fun _ _ => rfl,
    rowSets_bool (by decide) fun _ _ => rfl, rowSets_int 3 rfl fun _ _ => rfl,
    rowSets_bool (by decide) fun _ _ => rfl, rowSets_path (by decide) fun _ _ => rfl,
    rowSets_path (by decide) fun _ _ => rfl, rowSets_path (by decide) fun _ _ => rfl,
    rowSets_path (by decide) fun _ _ => rfl, rowSets_size 4 rfl fun _ _ => rfl,
    rowSets_size 5 rfl fun _ _ => rfl, rowSets_path (by decide) fun _ _ => rfl,
    rowSets_bool (by decide) fun _ _ => rfl, rowSets_uint 6 rfl fun _ _ => rfl,
    rowSets_size 7 rfl fun _ _ => rfl, rowSets_size 8 rfl fun _ _ => rfl,
    rowSets_size 9 rfl fun _ _ => rfl, rowSets_size 10 rfl fun _ _ => rfl,
    rowSets_size 11 rfl fun _ _ => rfl, rowSets_size 12 rfl fun _ _ => rfl,
    rowSets_bool (by decide) fun _ _ => rfl, rowSets_size 13 rfl fun _ _ => rfl,
    rowSets_size 14 rfl fun _ _ => rfl, rowSets_uint 15 rfl fun _ _ => rfl,
    rowSets_size 16 rfl fun _ _ => rfl, rowSets_size 17 rfl fun _ _ => rfl,
    rowSets_size 18 rfl fun _ _ => rfl, rowSets_size 19 rfl fun _ _ => rfl,
    rowSets_int 20 rfl fun _ _ => rfl, rowSets_bool (by decide) fun _ _ => rfl,
    rowSets_bool (by decide) fun _ _ => rfl, rowSets_int 21 rfl fun _ _ => rfl,
    rowSets_int 22 rfl fun _ _ => rfl, rowSets_bool (by decide) fun _ _ => rfl,
    rowSets_bool (by decide) fun _ _ => rfl, rowSets_size 23 rfl fun _ _ => rfl,
    rowSets_size 24 rfl fun _ _ => rfl, rowSets_uint 25 rfl fun _ _ => rfl,
    rowSets_bool (by decide) fun _ _ => rfl, rowSets_size 26 rfl fun _ _ => rfl,
    rowSets_size 27 rfl fun _ _ => rfl, rowSets_size 28 rfl fun _ _ => rfl,
    rowSets_size 29 rfl fun _ _ => rfl, rowSets_uint 30 rfl fun _ _ => rfl,
    rowSets_text (by decide) fun _ _ => rfl, rowSets_bool (by decide) fun _ _ => rfl,
    rowSets_bool (by decide) fun _ _ => rfl, rowSets_bool (by decide) fun _ _ => rfl,
    rowSets_bool (by decide) fun _ _ => rfl, rowSets_text (by decide) fun _ _ => rfl,
    rowSets_size 31 rfl fun _ _ => rfl, rowSets_bool (by decide) fun _ _ => rfl,
    rowSets_text (by decide) fun _ _ => rfl, rowSets_text (by decide) fun _ _ => rfl,
    rowSets_ushort 32 rfl fun _ _ => rfl, rowSets_uint 33 rfl fun _ _ => rfl,
    rowSets_uint 34 rfl fun _ _ => rfl, rowSets_bool (by decide) fun _ _ => rfl,
    rowSets_path (by decide) fun _ _ => rfl, rowSets_bool (by decide) fun _ _ => rfl,
    rowSets_text (by decide) fun _ _ => rfl, rowSets_path (by decide) fun _ _ => rfl,
    rowSets_path (by decide) fun _ _ => rfl, rowSets_size 35 rfl fun _ _ => rfl,
    rowSets_size 36 rfl fun _ _ => rfl, rowSets_size 37 rfl fun _ _ => rfl,
    rowSets_bool (by decide) fun _ _ => rfl, rowSets_text (by decide) fun _ _ => rfl,
    rowSets_bool (by decide) fun _ _ => rfl, rowSets_text (by decide) fun _ _ => rfl, ?_⟩
  simp

/-- The keys of the numeric fields. -/
def numericKeys : List String := numericFields.map (·.1)

/-- Keys in ASCII are told apart by their bytes. -/
theorem bytes_inj {s t : String} (hs : ascii s.toList = true) (ht : ascii t.toList = true)
    (h : bytes s = bytes t) : s = t := by
  have hlist := utf8_injective_of_ascii hs ht
    (by rw [utf8_of_ascii hs, utf8_of_ascii ht]; exact h)
  exact String.toList_inj.mp hlist

/-- The keys of the settings are ASCII, and those of the numeric fields are among
them in the same order. -/
theorem settings_keys : (∀ a ∈ settings.map (·.1), ascii a.toList = true) ∧
    numericKeys.Sublist (settings.map (·.1)) ∧ numericKeys.Nodup := by
  decide +kernel

theorem settings_ascii : ∀ a ∈ settings.map (·.1), ascii a.toList = true :=
  (settings_keys).1

theorem numericKeys_settings : ∀ b ∈ numericKeys, b ∈ settings.map (·.1) := fun _ hb =>
  (settings_keys).2.1.mem hb

theorem keys_apart {a b : String} (ha : a ∈ settings.map (·.1)) (hb : b ∈ settings.map (·.1))
    (h : bytes a = bytes b) : a = b :=
  bytes_inj (settings_ascii a ha) (settings_ascii b hb) h

theorem numericKeys_nodup : (numericKeys.map bytes).Nodup := by
  obtain ⟨_, _, hnodup⟩ := settings_keys
  refine hnodup.map_on fun a ha b hb h => ?_
  exact keys_apart (numericKeys_settings a ha) (numericKeys_settings b hb) h

/-- A setting that is applied sets the field of its key, or no numeric field. -/
theorem applySetting_numbers {key v : Bytes} {c c' : ServerConfig}
    (h : applySetting key v c = .ok c') :
    (∃ i field, numericFields[i]? = some field ∧ bytes field.1 = key ∧
      ∃ n, field.2.1.read v = some n ∧ numbers c' = (numbers c).set i n) ∨
    key ∉ numericKeys.map bytes ∧ numbers c' = numbers c := by
  rw [applySetting] at h
  split at h
  · next name set hfind =>
      have hmem := List.mem_of_find?_eq_some hfind
      have hkey : bytes name = key := by simpa using List.find?_some hfind
      rcases settings_rows _ hmem with ⟨i, type, hfield, hset⟩ | ⟨hother, hset⟩
      · obtain ⟨field, hfield, hpair⟩ := Option.map_eq_some_iff.mp hfield
        simp only [Prod.mk.injEq] at hpair
        obtain ⟨n, hn, hnumbers⟩ := hset v c c' h
        exact Or.inl ⟨i, field, hfield, by rw [hpair.1, hkey], n, by rw [hpair.2, hn], hnumbers⟩
      · refine Or.inr ⟨fun hnumeric => hother ?_, hset v c c' h⟩
        obtain ⟨b, hb, hbytes⟩ := List.mem_map.mp hnumeric
        have hname := keys_apart (List.mem_map_of_mem hmem) (numericKeys_settings b hb)
          (hkey.trans hbytes.symm)
        exact hname ▸ hb
  · next hfind =>
      have hother : key ∉ numericKeys.map bytes := by
        intro hnumeric
        obtain ⟨b, hb, hbytes⟩ := List.mem_map.mp hnumeric
        obtain ⟨row, hrow, rfl⟩ := List.mem_map.mp (numericKeys_settings b hb)
        have hno := List.find?_eq_none.mp hfind row hrow
        exact hno (by simpa using hbytes)
      right
      refine ⟨hother, ?_⟩
      split at h
      · cases hrule : Auth.parseTokenRule (key.drop 11) v false with
        | error e =>
            rw [hrule] at h
            cases h
        | ok rule =>
            rw [hrule] at h
            cases h
            rfl
      · split at h
        · cases h
          rfl
        · cases h
          rfl

/-! ## The whole text -/

/-- The key and the value of a line, if it has them. -/
def configEntry (line : Bytes) : Option (Bytes × Bytes) :=
  let line := trim (line.takeWhile (· ≠ 35))
  match find? [61] line with
  | none => none
  | some eq => some (trim (line.take eq), trim (line.drop (eq + 1)))

/-- What the lines of a text set. -/
def configEntries (content : Bytes) : List (Bytes × Bytes) :=
  (getlines content).filterMap configEntry

/-- The last value a key is given. -/
def lastValue (key : Bytes) (entries : List (Bytes × Bytes)) : Option Bytes :=
  ((entries.filter (·.1 = key)).map (·.2)).getLast?

theorem configLine_eq (line : Bytes) (config : ServerConfig) :
    configLine line config =
      match configEntry line with
      | none => .ok config
      | some (key, value) => applySetting key value config := by
  rw [configEntry, ← take_find_eq_takeWhile, configLine]
  generalize trim _ = text
  split
  · next hempty =>
      subst hempty
      rfl
  · cases find? [61] text <;> rfl

/-- The value of a line has no blanks around it. -/
theorem configEntry_value {line key v : Bytes} (h : configEntry line = some (key, v)) :
    ∀ c ∈ v.head?, isSpace c = false := by
  simp only [configEntry] at h
  split at h
  · cases h
  · cases h
    exact fun c hc => trimWith_head? hc

theorem lastValue_cons (key key' v : Bytes) (entries : List (Bytes × Bytes)) :
    lastValue key ((key', v) :: entries) =
      match lastValue key entries with
      | some w => some w
      | none => if key' = key then some v else none := by
  rw [lastValue, List.filter_cons]
  by_cases hkey : key' = key
  · simp only [hkey, decide_true, if_true, List.map_cons, List.getLast?_cons]
    rw [lastValue]
    cases ((entries.filter (·.1 = key)).map (·.2)).getLast? <;> rfl
  · simp only [hkey, decide_false, Bool.false_eq_true, if_false]
    rw [← lastValue]
    cases lastValue key entries <;> rfl

section Fields

variable {i : Nat} {field : String × NumberType × (ServerConfig → Int)}
  (hfield : numericFields[i]? = some field)

include hfield

theorem numbers_getElem? (c : ServerConfig) : (numbers c)[i]? = some (field.2.2 c) := by
  rw [numbers, List.getElem?_map, hfield]
  rfl

/-- A setting gives the field of its key the value that is read, and leaves
every other field alone. -/
theorem applySetting_field {key v : Bytes} {c c' : ServerConfig}
    (h : applySetting key v c = .ok c') :
    if key = bytes field.1 then field.2.1.read v = some (field.2.2 c')
    else field.2.2 c' = field.2.2 c := by
  have hbound := (List.getElem?_eq_some_iff.mp hfield).1
  have hmem : bytes field.1 ∈ numericKeys.map bytes :=
    List.mem_map_of_mem (List.mem_map_of_mem (List.mem_of_getElem? hfield))
  have hc := numbers_getElem? hfield c
  have hc' := numbers_getElem? hfield c'
  rcases applySetting_numbers h with ⟨j, other, hother, hkey, n, hn, hnumbers⟩ | ⟨hno, hnumbers⟩
  · by_cases hij : j = i
    · subst hij
      rw [hfield] at hother
      cases hother
      rw [if_pos hkey.symm, hn]
      rw [hnumbers, List.getElem?_set_self (by simpa [numbers] using hbound)] at hc'
      exact hc'
    · have hkeys : key ≠ bytes field.1 := by
        intro hsame
        refine hij ((List.getElem?_inj ?_ numericKeys_nodup).mp ?_)
        · simpa [numericKeys] using (List.getElem?_eq_some_iff.mp hother).1
        · simp only [numericKeys, List.getElem?_map, hother, hfield, Option.map_some]
          rw [hkey, hsame]
      rw [if_neg hkeys]
      rw [hnumbers, List.getElem?_set_ne hij, hc] at hc'
      exact (Option.some.inj hc').symm
  · have hkeys : key ≠ bytes field.1 := fun hsame => hno (hsame ▸ hmem)
    rw [if_neg hkeys]
    rw [hnumbers, hc] at hc'
    exact (Option.some.inj hc').symm

/-- What the loop makes of a numeric field: what the reader makes of the last
value its key has. The values before were read too. -/
theorem configLoop_field {lines : List Bytes} {c c' : ServerConfig}
    (h : configLoop lines c = .ok c') :
    (∀ v, (bytes field.1, v) ∈ lines.filterMap configEntry → (field.2.1.read v).isSome) ∧
    some (field.2.2 c') =
      match lastValue (bytes field.1) (lines.filterMap configEntry) with
      | none => some (field.2.2 c)
      | some v => field.2.1.read v := by
  induction lines generalizing c with
  | nil =>
      cases h
      exact ⟨by simp, rfl⟩
  | cons line lines ih =>
      rw [configLoop, configLine_eq] at h
      cases hentry : configEntry line with
      | none =>
          rw [hentry] at h
          rw [List.filterMap_cons_none hentry]
          exact ih h
      | some entry =>
          obtain ⟨key, v⟩ := entry
          rw [hentry] at h
          simp only [] at h
          split at h
          · cases h
          · next c₁ hset =>
              obtain ⟨hread, hlast⟩ := ih h
              have hfirst := applySetting_field hfield hset
              rw [List.filterMap_cons_some hentry, lastValue_cons]
              by_cases hkey : key = bytes field.1
              · rw [if_pos hkey] at hfirst
                refine ⟨fun w hw => ?_, ?_⟩
                · rcases List.mem_cons.mp hw with hw | hw
                  · rw [(Prod.mk.inj hw).2, hfirst]
                    rfl
                  · exact hread w hw
                · rw [hlast, if_pos hkey]
                  cases lastValue (bytes field.1) (lines.filterMap configEntry) with
                  | none => exact hfirst.symm
                  | some w => rfl
              · rw [if_neg hkey] at hfirst
                refine ⟨fun w hw => ?_, ?_⟩
                · rcases List.mem_cons.mp hw with hw | hw
                  · exact absurd (Prod.mk.inj hw).1.symm hkey
                  · exact hread w hw
                · rw [hlast, if_neg hkey]
                  cases lastValue (bytes field.1) (lines.filterMap configEntry) with
                  | none => exact congrArg some hfirst
                  | some w => rfl

/-- Behind the loop only a `worker_threads` of zero is replaced. -/
theorem chooseWorkers_field (env : ConfigEnv) (c : ServerConfig)
    (h : field.1 = "worker_threads" → c.workerThreads ≠ 0) :
    field.2.2 (chooseWorkers env c) = field.2.2 c := by
  rw [chooseWorkers]
  split
  · next hzero =>
      have hi : 17 ≠ i := by
        intro hi
        have hworkers : numericFields[17]? =
            some ("worker_threads", .size, fun c => c.workerThreads) := rfl
        rw [hi, hfield, Option.some.injEq] at hworkers
        exact h (by rw [hworkers]) hzero
      have hnumbers : ∀ n : Nat, numbers { c with workerThreads := n } = (numbers c).set 17 n :=
        fun n => rfl
      have hsame := numbers_getElem? hfield { c with
        workerThreads :=
          max 4 (max 1 env.hardwareConcurrency * c.workerThreadMultiplier % 2 ^ 64) }
      rw [hnumbers, List.getElem?_set_ne hi, numbers_getElem? hfield c] at hsame
      exact (Option.some.inj hsame).symm
  · rfl

theorem resolvePaths_field (base : Path) (c : ServerConfig) :
    field.2.2 (resolvePaths base c) = field.2.2 c := by
  have hsame := numbers_getElem? hfield (resolvePaths base c)
  rw [show numbers (resolvePaths base c) = numbers c from rfl, numbers_getElem? hfield c] at hsame
  exact (Option.some.inj hsame).symm

end Fields

theorem mem_of_lastValue {key v : Bytes} {entries : List (Bytes × Bytes)}
    (h : lastValue key entries = some v) : (key, v) ∈ entries := by
  have hmem := List.mem_of_getLast? h
  obtain ⟨e, he, rfl⟩ := List.mem_map.mp hmem
  obtain ⟨he, hkey⟩ := List.mem_filter.mp he
  exact (of_decide_eq_true hkey : e.1 = key) ▸ he

theorem load_loop {env : ConfigEnv} {path : Path} {config : ServerConfig} {content : Bytes}
    (h : ConfigLoader.load env path = .ok config) (hcontent : env.content path = some content) :
    ∃ parsed, configLoop (getlines content) {} = .ok parsed ∧
      config = chooseWorkers env (resolvePaths
        (if path.absolute then path else env.currentPath / path).parentPath parsed) := by
  simp only [ConfigLoader.load, hcontent] at h
  split at h
  · cases h
  · next parsed hparsed =>
      split at h
      · cases h
      · split at h
        · cases h
        · cases h
          exact ⟨parsed, hparsed, rfl⟩

/-! ## What the readers take for a number -/

/-- A text the reader takes, of which the field does not hold what it says: more
than a number, or a number the field has no room for. -/
def Misread (type : NumberType) (v : Bytes) : Prop :=
  ∃ negative n rest, readDecimal v = some (negative, n, rest) ∧
    type.Takes (signedNumber negative n) ∧
    (rest ≠ [] ∨ ¬ type.Holds (signedNumber negative n))

theorem exists_reading {negative : Bool} {n : Nat} {rest : Bytes} {P : Bool → Nat → Prop} :
    (∃ negative' n' rest', some (negative, n, rest) = some (negative', n', rest') ∧
      P negative' n') ↔ P negative n := by
  constructor
  · rintro ⟨_, _, _, h, hP⟩
    cases h
    exact hP
  · exact fun hP => ⟨negative, n, rest, rfl, hP⟩

theorem stoi_eq_some_iff {v : Bytes} {x : Int} :
    stoi v = some x ↔ ∃ negative n rest, readDecimal v = some (negative, n, rest) ∧
      (-2 ^ 31 ≤ signedNumber negative n ∧ signedNumber negative n < 2 ^ 31) ∧
      signedNumber negative n = x := by
  rw [stoi]
  cases readDecimal v with
  | none => simp
  | some reading =>
      obtain ⟨negative, n, rest⟩ := reading
      have htakes : signedValue 32 negative n = some x ↔
          (-2 ^ 31 ≤ signedNumber negative n ∧ signedNumber negative n < 2 ^ 31) ∧
            signedNumber negative n = x := by
        rw [signedValue, signedNumber]
        cases negative with
        | true =>
            simp only [if_true]
            split
            · rw [Option.some.injEq, and_iff_right]
              omega
            · exact iff_of_false (by simp) (by omega)
        | false =>
            simp only [Bool.false_eq_true, if_false]
            split
            · rw [Option.some.injEq, and_iff_right]
              omega
            · exact iff_of_false (by simp) (by omega)
      simp only [htakes, exists_reading]

theorem stoull_eq_some_iff {v : Bytes} {x : Nat} :
    stoull v = some x ↔ ∃ negative n rest, readDecimal v = some (negative, n, rest) ∧
      (-2 ^ 64 < signedNumber negative n ∧ signedNumber negative n < 2 ^ 64) ∧
      signedNumber negative n % 2 ^ 64 = x := by
  rw [stoull]
  cases readDecimal v with
  | none => simp
  | some reading =>
      obtain ⟨negative, n, rest⟩ := reading
      have htakes : (if 2 ^ 64 ≤ n then none
          else some (if negative then (2 ^ 64 - n) % 2 ^ 64 else n)) = some x ↔
          (-2 ^ 64 < signedNumber negative n ∧ signedNumber negative n < 2 ^ 64) ∧
            signedNumber negative n % 2 ^ 64 = x := by
        rw [signedNumber]
        split
        · refine iff_of_false (by simp) ?_
          cases negative <;> simp <;> omega
        · rw [Option.some.injEq]
          cases negative with
          | true =>
              simp only [if_true]
              omega
          | false =>
              simp only [Bool.false_eq_true, if_false]
              omega
      simp only [htakes, exists_reading]

/-- What a reader takes, and what the field is set to. -/
theorem read_eq_some_iff {type : NumberType} {v : Bytes} {x : Int} :
    type.read v = some x ↔ ∃ negative n rest, readDecimal v = some (negative, n, rest) ∧
      type.Takes (signedNumber negative n) ∧ type.stored (signedNumber negative n) = x := by
  cases type with
  | int => exact stoi_eq_some_iff
  | ushort =>
      simp only [NumberType.read, Option.map_eq_some_iff, stoi_eq_some_iff]
      constructor
      · rintro ⟨y, ⟨negative, n, rest, hread, htakes, rfl⟩, hx⟩
        exact ⟨negative, n, rest, hread, htakes, hx⟩
      · rintro ⟨negative, n, rest, hread, htakes, hx⟩
        exact ⟨_, ⟨negative, n, rest, hread, htakes, rfl⟩, hx⟩
  | size =>
      simp only [NumberType.read, Option.map_eq_some_iff, stoull_eq_some_iff]
      constructor
      · rintro ⟨y, ⟨negative, n, rest, hread, htakes, hy⟩, hx⟩
        exact ⟨negative, n, rest, hread, htakes, hy.trans hx⟩
      · rintro ⟨negative, n, rest, hread, htakes, hx⟩
        have hnonneg : 0 ≤ x := hx ▸ Int.emod_nonneg _ (by decide)
        exact ⟨x.toNat, ⟨negative, n, rest, hread, htakes,
          hx.trans (Int.toNat_of_nonneg hnonneg).symm⟩, Int.toNat_of_nonneg hnonneg⟩
  | uint =>
      simp only [NumberType.read, Option.map_eq_some_iff, stoull_eq_some_iff]
      constructor
      · rintro ⟨y, ⟨negative, n, rest, hread, htakes, hy⟩, hx⟩
        refine ⟨negative, n, rest, hread, htakes, ?_⟩
        rw [← hx, ← hy, NumberType.stored]
        omega
      · rintro ⟨negative, n, rest, hread, htakes, hx⟩
        have hnonneg : 0 ≤ signedNumber negative n % 2 ^ 64 := Int.emod_nonneg _ (by decide)
        refine ⟨(signedNumber negative n % 2 ^ 64).toNat, ⟨negative, n, rest, hread, htakes,
          (Int.toNat_of_nonneg hnonneg).symm⟩, ?_⟩
        rw [Int.toNat_of_nonneg hnonneg, ← hx, NumberType.stored]
        omega

theorem stored_of_holds {type : NumberType} {z : Int} (h : type.Holds z) : type.stored z = z := by
  cases type with
  | int => rfl
  | ushort | uint | size => exact Int.emod_eq_of_lt h.1 h.2

/-- A text that is read is a number in its entirety, and one the field holds, or
it is misread. -/
theorem whole_iff {type : NumberType} {v : Bytes} (hv : ∀ c ∈ v.head?, isSpace c = false)
    (hread : (type.read v).isSome) :
    (∃ z, decimalInteger v = some z ∧ type.Holds z) ↔ ¬ Misread type v := by
  obtain ⟨x, hx⟩ := Option.isSome_iff_exists.mp hread
  obtain ⟨negative, n, rest, hreading, htakes, -⟩ := read_eq_some_iff.mp hx
  constructor
  · rintro ⟨z, hz, hholds⟩ ⟨negative', n', rest', hreading', -, hwrong⟩
    obtain ⟨_, _, hwhole, hvalue⟩ := (decimalInteger_eq_some_iff hv).mp hz
    rw [hreading'] at hwhole
    cases hwhole
    rcases hwrong with hrest | hout
    · exact hrest rfl
    · exact hout (hvalue ▸ hholds)
  · intro hright
    have hrest : rest = [] := by
      by_contra hrest
      exact hright ⟨negative, n, rest, hreading, htakes, Or.inl hrest⟩
    have hholds : type.Holds (signedNumber negative n) := by
      by_contra hout
      exact hright ⟨negative, n, rest, hreading, htakes, Or.inr hout⟩
    exact ⟨_, (decimalInteger_eq_some_iff hv).mpr ⟨negative, n, hrest ▸ hreading, rfl⟩, hholds⟩

/-- The number that a text is in its entirety is stored as it is. -/
theorem read_whole {type : NumberType} {v : Bytes} (hv : ∀ c ∈ v.head?, isSpace c = false)
    {x z : Int} (hx : type.read v = some x) (hz : decimalInteger v = some z)
    (hholds : type.Holds z) : x = z := by
  obtain ⟨negative, n, rest, hreading, -, hstored⟩ := read_eq_some_iff.mp hx
  obtain ⟨_, _, hwhole, hvalue⟩ := (decimalInteger_eq_some_iff hv).mp hz
  rw [hreading] at hwhole
  cases hwhole
  rw [← hstored, hvalue, stored_of_holds hholds]

/-! ## Loading -/

/-- Every numeric value is a decimal integer that its field holds, and the field
of a key has the last one. -/
structure NumbersExact (content : Bytes) (config : ServerConfig) : Prop where
  whole : ∀ field ∈ numericFields, ∀ v, (bytes field.1, v) ∈ configEntries content →
    ∃ z, decimalInteger v = some z ∧ field.2.1.Holds z
  stored : ∀ field ∈ numericFields, ∀ v,
    lastValue (bytes field.1) (configEntries content) = some v →
      decimalInteger v = some (field.2.2 config)

/-- Where a configuration is loaded, its numbers are exact if and only if no
numeric value is misread and the last `worker_threads` is not zero. -/
theorem numbers_exact_iff {env : ConfigEnv} {path : Path} {config : ServerConfig}
    {content : Bytes} (h : ConfigLoader.load env path = .ok config)
    (hcontent : env.content path = some content) :
    NumbersExact content config ↔
      (∀ field ∈ numericFields, ∀ v, (bytes field.1, v) ∈ configEntries content →
        ¬ Misread field.2.1 v) ∧
      ∀ v, lastValue (bytes "worker_threads") (configEntries content) = some v →
        decimalInteger v ≠ some 0 := by
  obtain ⟨parsed, hloop, rfl⟩ := load_loop h hcontent
  generalize (if path.absolute then path else env.currentPath / path).parentPath = base at h ⊢
  have hentry : ∀ key v, (key, v) ∈ configEntries content → ∀ c ∈ v.head?, isSpace c = false := by
    intro key v hmem
    obtain ⟨line, -, hline⟩ := List.mem_filterMap.mp hmem
    exact configEntry_value hline
  have hworkers : ("worker_threads", NumberType.size,
      fun c : ServerConfig => (c.workerThreads : Int)) ∈ numericFields :=
    List.mem_of_getElem? (i := 17) rfl
  constructor
  · intro hexact
    refine ⟨fun field hmem v hv => ?_, fun v hv hzero => ?_⟩
    · obtain ⟨i, hi⟩ := List.mem_iff_getElem?.mp hmem
      exact (whole_iff (hentry _ v hv) ((configLoop_field hi hloop).1 v hv)).mp
        (hexact.whole field hmem v hv)
    · have hstored := hexact.stored _ hworkers v hv
      rw [hzero] at hstored
      have hchosen : (chooseWorkers env (resolvePaths base parsed)).workerThreads ≠ 0 := by
        rw [chooseWorkers]
        split
        · simp
        · assumption
      exact hchosen (by simpa using (Option.some.inj hstored).symm)
  · rintro ⟨hright, hnonzero⟩
    have hwhole : ∀ field ∈ numericFields, ∀ v, (bytes field.1, v) ∈ configEntries content →
        ∃ z, decimalInteger v = some z ∧ field.2.1.Holds z := by
      intro field hmem v hv
      obtain ⟨i, hi⟩ := List.mem_iff_getElem?.mp hmem
      exact (whole_iff (hentry _ v hv) ((configLoop_field hi hloop).1 v hv)).mpr
        (hright field hmem v hv)
    refine ⟨hwhole, fun field hmem v hv => ?_⟩
    obtain ⟨i, hi⟩ := List.mem_iff_getElem?.mp hmem
    have hmemv := mem_of_lastValue hv
    obtain ⟨z, hz, hholds⟩ := hwhole field hmem v hmemv
    have hlast := (configLoop_field hi hloop).2
    rw [configEntries] at hv
    rw [hv] at hlast
    have hvalue := read_whole (hentry _ v hmemv) hlast.symm hz hholds
    have hkept : field.1 = "worker_threads" → (resolvePaths base parsed).workerThreads ≠ 0 := by
      intro hname hzero
      have hfield := List.inj_on_of_nodup_map (List.Nodup.of_map bytes numericKeys_nodup) hmem
        hworkers hname
      subst hfield
      refine hnonzero v hv ?_
      rw [hz, ← hvalue]
      exact congrArg (fun n : Nat => some (n : Int)) hzero
    rw [chooseWorkers_field hi env _ hkept, resolvePaths_field hi, hvalue, hz]

/-- Four numbers that do not fit, or are none. -/
def wrappedConf : Bytes :=
  bytes ("port = 70000\n" ++ "auth_reload_interval_seconds = 4294967301\n" ++
    "rate_limit_per_minute = -1\n" ++ "max_headers = 100k\n")

def wrappedEnv : ConfigEnv := { content := fun _ => some wrappedConf }

def wrappedPath : Path := Path.ofBytes (bytes "/etc/server.conf")

/-- The text is loaded, and the fields have other numbers. -/
theorem wrappedConf_loaded :
    ∃ config, ConfigLoader.load wrappedEnv wrappedPath = .ok config ∧
      config.port = 4464 ∧ config.authReloadIntervalSeconds = 5 ∧
      config.rateLimitPerMinute = 2 ^ 64 - 1 ∧ config.maxHeaders = 100 := by
  have hfields : (ConfigLoader.load wrappedEnv wrappedPath).map (fun config => decide (
      config.port = 4464 ∧ config.authReloadIntervalSeconds = 5 ∧
      config.rateLimitPerMinute = 2 ^ 64 - 1 ∧ config.maxHeaders = 100)) = .ok true := by
    decide +kernel
  cases h : ConfigLoader.load wrappedEnv wrappedPath with
  | error e =>
      rw [h] at hfields
      cases hfields
  | ok config =>
      rw [h] at hfields
      exact ⟨config, rfl,
        of_decide_eq_true (Except.ok.inj (show Except.ok _ = Except.ok true from hfields))⟩

theorem numbers_exact_iff_wrappedConf :
    ∃ config, ConfigLoader.load wrappedEnv wrappedPath = .ok config ∧
      (NumbersExact wrappedConf config ↔
        (∀ field ∈ numericFields, ∀ v, (bytes field.1, v) ∈ configEntries wrappedConf →
          ¬ Misread field.2.1 v) ∧
        ∀ v, lastValue (bytes "worker_threads") (configEntries wrappedConf) = some v →
          decimalInteger v ≠ some 0) := by
  obtain ⟨config, hload, -⟩ := wrappedConf_loaded
  exact ⟨config, hload, numbers_exact_iff hload rfl⟩

/-- Port 70000 is port 4464, and an interval of more than four thousand million
seconds passes the check for large ones. -/
theorem numbers_wrapped :
    ∃ config, ConfigLoader.load wrappedEnv wrappedPath = .ok config ∧
      config.port = 4464 ∧ config.authReloadIntervalSeconds = 5 ∧
      config.rateLimitPerMinute = 2 ^ 64 - 1 ∧ config.maxHeaders = 100 ∧
      ¬ NumbersExact wrappedConf config := by
  obtain ⟨config, hload, hport, hinterval, hrate, hheaders⟩ := wrappedConf_loaded
  refine ⟨config, hload, hport, hinterval, hrate, hheaders, fun hexact => ?_⟩
  have hentry : lastValue (bytes "port") (configEntries wrappedConf) = some (bytes "70000") := by
    decide +kernel
  have hstored := hexact.stored _ (List.mem_of_getElem? (i := 0) rfl) _ hentry
  have hvalue : decimalInteger (bytes "70000") = some 70000 := by
    decide
  rw [hvalue] at hstored
  have hsame : (70000 : Int) = config.port := Option.some.inj hstored
  omega

end HydrogenHttpd.Ref
