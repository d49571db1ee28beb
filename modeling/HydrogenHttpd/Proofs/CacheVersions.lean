import HydrogenHttpd.Proofs.CacheSections
import HydrogenHttpd.Ref.CacheWorld

/-!
# Which version of a file the cache hands out

`get` asks for the size, the modification time and the content of a file one
after the other, so the three can belong to different versions. As long as
every read meets the version whose size and time were taken before, everything
in the cache is one version of its file and labelled as such, and so is what
`get` returns (`responses_not_torn`). Then also the time of an entry's
validation lies before a moment at which the file was that version, since a
thread takes its time before it looks at the file; so nothing that is handed
out is older than the interval allows (`bounded_staleness`), whatever entry a
slow thread puts over a newer one.
-/

namespace HydrogenHttpd.Ref

open Base

variable {ι : Type} {hash : Bytes → Nat}

/-! ## One version -/

/-- The file is that version, and labelled as it. -/
def Labels (file : CachedStaticFile) (version : FileVersion) : Prop :=
  file.body = version.content ∧
    file.etag = makeEtag version.content.length version.modified

/-- The cached file is a version among those known of the key. -/
def Genuine (known : Bytes → FileVersion → Prop) (key : Bytes) (file : CachedStaticFile) : Prop :=
  ∃ version, known key version ∧ Labels file version

/-- What a thread hands on or out is a version of its file. -/
def GetPhase.Genuine (known : Bytes → FileVersion → Prop) : GetPhase → Prop
  | .inserting path _ file _ => Ref.Genuine known path.toBytes file
  | .returned path _ (some file) => Ref.Genuine known path.toBytes file
  | _ => True

/-- The version a read meets is the one whose size and time were taken, or is
too short for the size. -/
def ReadsWhatWasSized (disk : Disk) : GetPhase → Prop
  | .reading path _ size modified => ∀ version, disk path.toBytes = some version →
      version.content.length < size ∨
        version.content.length = size ∧ version.modified = modified
  | _ => True

section Genuine

variable {known : Bytes → FileVersion → Prop} {cache cache' : StaticFileCache}
  {phase phase' : GetPhase} {access : GetAccess}

/-- A read of the version that was sized gives its whole content. -/
theorem readBody_whole {version : FileVersion} {size : Nat} {modified : Int} {body : Bytes}
    (h : version.content.length < size ∨
      version.content.length = size ∧ version.modified = modified)
    (hbody : StaticFileCache.readBody (some version.content) size = some body) :
    body = version.content ∧ size = version.content.length ∧ modified = version.modified := by
  rw [StaticFileCache.readBody] at hbody
  split at hbody
  · cases hbody
  · next hlong =>
      obtain ⟨hsize, hmodified⟩ := h.resolve_left hlong
      cases hbody
      exact ⟨by rw [← hsize, List.take_length], hsize.symm, hmodified.symm⟩

/-- One step of a call keeps what is cached and handed on genuine. -/
theorem genuine_step (hcache : cache.Holds fun key entry => Genuine known key entry.file)
    (hphase : phase.Genuine known) (hstep : GetStep hash cache phase access cache' phase')
    (hread : ∀ path now size modified answer body, phase = .reading path now size modified →
      access = .content path answer → StaticFileCache.readBody answer size = some body →
      ∃ version, known path.toBytes version ∧ body = version.content ∧
        size = version.content.length ∧ modified = version.modified) :
    (cache'.Holds fun key entry => Genuine known key entry.file) ∧ phase'.Genuine known := by
  cases hstep with
  | call path now => exact ⟨hcache, trivial⟩
  | look path now =>
      obtain ⟨entry, hlookup, -, hfound⟩ | hnone := look_cases cache hash path now
      · rw [hfound]
        exact ⟨hcache, hcache.lookup hlookup⟩
      · rw [hnone]
        exact ⟨hcache, trivial⟩
  | fileSize path now answer => cases answer <;> exact ⟨hcache, trivial⟩
  | lastWriteTime path now size answer => exact ⟨hcache, trivial⟩
  | recheck path now size modified =>
      obtain ⟨entry, hlookup, -, -, hfound⟩ | hnone :=
        recheck_cases cache hash path now size modified
      · have hentry : Genuine known path.toBytes entry.file := hcache.lookup hlookup
        rw [hfound]
        exact ⟨hcache.recheck rfl hentry, hentry⟩
      · rw [hnone]
        exact ⟨hcache, trivial⟩
  | content path now size modified answer =>
      obtain ⟨hsame, ⟨-, hnext⟩ | ⟨body, hbody, hnext⟩⟩ :=
        fetch_cases cache path now size modified answer
      · rw [hsame, hnext]
        exact ⟨hcache, trivial⟩
      · obtain ⟨version, hknown, hcontent, hsize, hmodified⟩ :=
          hread path now size modified answer body rfl rfl hbody
        have hgenuine : Genuine known path.toBytes
            { body := body, etag := makeEtag size modified, size := size } :=
          ⟨version, hknown, hcontent, by rw [hsize, hmodified]⟩
        rcases hnext with ⟨-, hnext⟩ | ⟨-, hnext⟩
        · rw [hsame, hnext]
          exact ⟨hcache, hgenuine⟩
        · rw [hsame, hnext]
          exact ⟨hcache, hgenuine⟩
  | insert path now file modified => exact ⟨hcache.insert hphase, hphase⟩
  | back path now result => exact ⟨hcache, trivial⟩

theorem Genuine.mono {known' : Bytes → FileVersion → Prop}
    (h : ∀ key version, known key version → known' key version) {key : Bytes}
    {file : CachedStaticFile} (hfile : Genuine known key file) : Genuine known' key file := by
  obtain ⟨version, hknown, hlabels⟩ := hfile
  exact ⟨version, h key version hknown, hlabels⟩

theorem GetPhase.Genuine.mono {known' : Bytes → FileVersion → Prop}
    (h : ∀ key version, known key version → known' key version)
    (hphase : phase.Genuine known) : phase.Genuine known' := by
  cases phase with
  | inserting path now file modified => exact Ref.Genuine.mono h hphase
  | returned path now result =>
      cases result with
      | none => trivial
      | some file => exact Ref.Genuine.mono h hphase
  | _ => trivial

end Genuine

/-! ## Runs in which reads meet what was sized -/

/-- The version was there at some moment of the run. -/
def CacheWorld.Known (s : CacheWorld ι) (key : Bytes) (version : FileVersion) : Prop :=
  ∃ m, s.Had key version m

/-- The condition on a step: a read meets the version whose size and time the
thread has taken. -/
def ReadsMeetSized (s : CacheWorld ι) : WorldEvent ι → Prop
  | .get i (.content _ _) => ReadsWhatWasSized s.disk (s.threads i)
  | _ => True

def SteadyStep [DecidableEq ι] (hash : Bytes → Nat) (s s' : CacheWorld ι) : Prop :=
  ∃ event, ReadsMeetSized s event ∧ WorldStep hash s event s'

structure GenuineWorld (s : CacheWorld ι) : Prop where
  present : (s.time, s.disk) ∈ s.moments
  cache : s.cache.Holds fun key entry => Genuine s.Known key entry.file
  threads : ∀ i, (s.threads i).Genuine s.Known

/-- The moments of a run are kept. -/
theorem had_step [DecidableEq ι] {s s' : CacheWorld ι} {event : WorldEvent ι}
    (h : WorldStep hash s event s') {key : Bytes} {version : FileVersion} {m : Int}
    (hhad : s.Had key version m) : s'.Had key version m := by
  obtain ⟨disk, hmem, hdisk⟩ := hhad
  cases h with
  | get i access cache phase h hanswer => exact ⟨disk, hmem, hdisk⟩
  | replace key version hnew => exact ⟨disk, List.mem_cons_of_mem _ hmem, hdisk⟩
  | remove key => exact ⟨disk, List.mem_cons_of_mem _ hmem, hdisk⟩
  | tick time h => exact ⟨disk, List.mem_cons_of_mem _ hmem, hdisk⟩

theorem present_step [DecidableEq ι] {s s' : CacheWorld ι} {event : WorldEvent ι}
    (h : WorldStep hash s event s') (hpresent : (s.time, s.disk) ∈ s.moments) :
    (s'.time, s'.disk) ∈ s'.moments := by
  cases h with
  | get i access cache phase h hanswer => exact hpresent
  | replace key version hnew => exact List.mem_cons_self
  | remove key => exact List.mem_cons_self
  | tick time h => exact List.mem_cons_self

theorem genuineWorld_step [DecidableEq ι] {s s' : CacheWorld ι} (hs : GenuineWorld s)
    (h : SteadyStep hash s s') : GenuineWorld s' := by
  obtain ⟨event, hmeets, hstep⟩ := h
  have hknown : ∀ key version, s.Known key version → s'.Known key version :=
    fun key version ⟨m, hhad⟩ => ⟨m, had_step hstep hhad⟩
  have hpresent := present_step hstep hs.present
  have holdCache : s.cache.Holds fun key entry => Genuine s'.Known key entry.file :=
    fun shard hshard row hrow => (hs.cache shard hshard row hrow).mono hknown
  have holdThreads : ∀ i, (s.threads i).Genuine s'.Known := fun i => (hs.threads i).mono hknown
  cases hstep with
  | get i access cache phase hget hanswer =>
      obtain ⟨hcache, hphase⟩ := genuine_step hs.cache (hs.threads i) hget (by
        intro path now size modified answer body hphase haccess hbody
        rw [haccess] at hanswer hmeets
        rw [ReadsMeetSized, hphase] at hmeets
        rcases hanswer with hnone | hdisk
        · rw [hnone] at hbody
          cases hbody
        · cases hversion : s.disk path.toBytes with
          | none =>
              rw [hdisk, hversion] at hbody
              cases hbody
          | some version =>
              rw [hdisk, hversion] at hbody
              exact ⟨version, ⟨s.time, s.disk, hs.present, hversion⟩,
                readBody_whole (hmeets version hversion) hbody⟩)
      refine ⟨hpresent, hcache, fun j => ?_⟩
      simp only [Function.update_apply]
      split
      · exact hphase
      · exact hs.threads j
  | replace key version hnew => exact ⟨hpresent, holdCache, holdThreads⟩
  | remove key => exact ⟨hpresent, holdCache, holdThreads⟩
  | tick time h => exact ⟨hpresent, holdCache, holdThreads⟩

theorem genuineWorld_initial {s : CacheWorld ι} (h : s.Initial) : GenuineWorld s := by
  obtain ⟨⟨enabled, shardCount, maxEntries, maxBytes, maxFileBytes, milliseconds, hcache, hidle⟩,
    hmoments⟩ := h
  refine ⟨by rw [hmoments]; exact List.mem_cons_self, ?_, fun i => ?_⟩
  · intro shard hshard row hrow
    rw [hcache] at hshard
    rw [List.eq_of_mem_replicate hshard] at hrow
    cases hrow
  · rw [hidle i]
    trivial

/-- In every run in which each read meets the version whose size and
modification time the thread has taken before: what `get` returns is the
content of one version of the file, and its ETag is that version's. -/
theorem responses_not_torn [DecidableEq ι] {s : CacheWorld ι}
    (h : Reachable CacheWorld.Initial (SteadyStep hash) s) {i : ι} {path : Path} {now : Int}
    {file : CachedStaticFile} (hreturned : s.threads i = .returned path now (some file)) :
    ∃ version, s.Known path.toBytes version ∧ file.body = version.content ∧
      file.etag = makeEtag version.content.length version.modified := by
  have hgenuine := (h.invariant (fun _ hs => genuineWorld_initial hs)
    fun _ _ hs hstep => genuineWorld_step hs hstep).threads i
  rw [hreturned] at hgenuine
  exact hgenuine

/-! A world with one file, one thread and a cache that was just started, and the
file's next version. -/

def pagePath : Path := Path.ofBytes (bytes "/a")

def page : FileVersion := { content := bytes "old", modified := 1 }

def nextPage : FileVersion := { content := bytes "longer", modified := 2 }

def pageDisk : Disk := fun key => if key = pagePath.toBytes then some page else none

def pageWorld : CacheWorld Unit :=
  { cache := StaticFileCache.construct true 1 16 1024 1024 1000
    threads := fun _ => .idle
    time := 0
    disk := pageDisk
    moments := [(0, pageDisk)]
    sized := fun _ => none }

theorem pageWorld_initial : pageWorld.Initial :=
  ⟨⟨true, 1, 16, 1024, 1024, 1000, rfl, fun _ => rfl⟩, rfl⟩

theorem responses_not_torn_page :
    ∃ s : CacheWorld Unit, Reachable CacheWorld.Initial (SteadyStep fun key => key.length) s ∧
      ∃ file : CachedStaticFile, s.threads () = .returned pagePath 0 (some file) ∧
      ∃ version, s.Known pagePath.toBytes version ∧ file.body = version.content ∧
        file.etag = makeEtag version.content.length version.modified := by
  have start : Reachable CacheWorld.Initial (SteadyStep fun key => key.length) pageWorld :=
    .start pageWorld_initial
  have called := start.step ⟨.get () (.call pagePath 0), trivial,
    .get _ () _ _ _ (.call _ pagePath 0) rfl⟩
  have looked := called.step ⟨.get () .nothing, trivial,
    .get _ () _ _ _ (.look _ pagePath 0) trivial⟩
  have sized := looked.step ⟨.get () (.fileSize pagePath (some 3)), trivial,
    .get _ () _ _ _ (.fileSize _ pagePath 0 (some 3)) (Or.inr rfl)⟩
  have timed := sized.step ⟨.get () (.lastWriteTime pagePath (some 1)), trivial,
    .get _ () _ _ _ (.lastWriteTime _ pagePath 0 3 (some 1)) (Or.inr rfl)⟩
  have rechecked := timed.step ⟨.get () .nothing, trivial,
    .get _ () _ _ _ (.recheck _ pagePath 0 3 1) trivial⟩
  have read := rechecked.step ⟨.get () (.content pagePath (some (bytes "old"))),
    fun version hversion => Or.inr (by cases hversion; exact ⟨rfl, rfl⟩),
    .get _ () _ _ _ (.content _ pagePath 0 3 1 (some (bytes "old"))) (Or.inr rfl)⟩
  have inserted := read.step ⟨.get () .nothing, trivial,
    .get _ () _ _ _ (.insert _ pagePath 0 _ 1) trivial⟩
  exact ⟨_, inserted, _, rfl, responses_not_torn inserted (i := ()) rfl⟩

/-- In a run whose only versions are these two, nothing else is known. -/
theorem neither_page {s : CacheWorld Unit} {file : CachedStaticFile}
    (h : s.moments =
      [(0, Function.update pageDisk pagePath.toBytes (some nextPage)), (0, pageDisk)])
    (hpage : file.body ≠ page.content) (hnext : file.body ≠ nextPage.content) :
    ¬ ∃ version, s.Known pagePath.toBytes version ∧ file.body = version.content ∧
      file.etag = makeEtag version.content.length version.modified := by
  intro ⟨version, ⟨m, disk, hmem, hdisk⟩, hbody, _⟩
  rw [h] at hmem
  simp only [List.mem_cons, List.not_mem_nil, or_false, Prod.mk.injEq] at hmem
  rcases hmem with ⟨-, hafter⟩ | ⟨-, hbefore⟩
  · rw [hafter, Function.update_self] at hdisk
    cases hdisk
    exact hnext hbody
  · rw [hbefore, pageDisk, if_pos rfl] at hdisk
    cases hdisk
    exact hpage hbody

/-- The file is replaced by a longer one between the size and the read: the
response is neither version. -/
theorem response_torn :
    ∃ s : CacheWorld Unit, Reachable CacheWorld.Initial
        (fun s s' => ∃ event, WorldStep (fun key => key.length) s event s') s ∧
      ∃ file : CachedStaticFile, s.threads () = .returned pagePath 0 (some file) ∧
        ¬ ∃ version, s.Known pagePath.toBytes version ∧ file.body = version.content ∧
          file.etag = makeEtag version.content.length version.modified := by
  have start : Reachable CacheWorld.Initial
      (fun s s' => ∃ event, WorldStep (fun key => key.length) s event s') pageWorld :=
    .start pageWorld_initial
  have called := start.step ⟨_, .get _ () _ _ _ (.call _ pagePath 0) rfl⟩
  have looked := called.step ⟨_, .get _ () _ _ _ (.look _ pagePath 0) trivial⟩
  have sized := looked.step ⟨_, .get _ () _ _ _ (.fileSize _ pagePath 0 (some 3)) (Or.inr rfl)⟩
  have timed := sized.step
    ⟨_, .get _ () _ _ _ (.lastWriteTime _ pagePath 0 3 (some 1)) (Or.inr rfl)⟩
  have replaced := timed.step ⟨_, .replace _ pagePath.toBytes nextPage (by
    intro earlier m ⟨disk, hmem, hdisk⟩
    cases List.mem_singleton.mp hmem
    cases hdisk
    decide)⟩
  have rechecked := replaced.step ⟨_, .get _ () _ _ _ (.recheck _ pagePath 0 3 1) trivial⟩
  have read := rechecked.step
    ⟨_, .get _ () _ _ _ (.content _ pagePath 0 3 1 (some (bytes "longer"))) (Or.inr rfl)⟩
  have inserted := read.step ⟨_, .get _ () _ _ _ (.insert _ pagePath 0 _ 1) trivial⟩
  exact ⟨_, inserted, { body := bytes "lon", etag := makeEtag 3 1, size := 3 }, rfl,
    neither_page rfl (by decide) (by decide)⟩

/-! ## How old a response may be -/

/-- Every access succeeds, and the file is at the second and the third access of
a call what it was at the first. -/
def CallsUndisturbed (s : CacheWorld ι) : WorldEvent ι → Prop
  | .get _ (.fileSize _ answer) => answer ≠ none
  | .get i (.lastWriteTime path answer) => answer ≠ none ∧ s.disk path.toBytes = s.sized i
  | .get i (.content path answer) => answer ≠ none ∧ s.disk path.toBytes = s.sized i
  | _ => True

def CalmStep [DecidableEq ι] (hash : Bytes → Nat) (s s' : CacheWorld ι) : Prop :=
  ∃ event, CallsUndisturbed s event ∧ WorldStep hash s event s'

/-- The file was this version at a moment not before `since`. -/
def CacheWorld.HadSince (s : CacheWorld ι) (key : Bytes) (version : FileVersion) (since : Int) :
    Prop :=
  ∃ m, s.Had key version m ∧ since ≤ m

/-- The file had this content, with this time, at a moment not before `since`. -/
def CacheWorld.ContentSince (s : CacheWorld ι) (key body : Bytes) (modified since : Int) : Prop :=
  ∃ version, s.HadSince key version since ∧ body = version.content ∧ modified = version.modified

/-- The interval, in nanoseconds. -/
def StaticFileCache.interval (cache : StaticFileCache) : Int := cache.revalidateInterval * 1000000

/-- What the state of a call says about the moments since it began. -/
def FreshPhase (s : CacheWorld ι) (interval : Int) (sized : Option FileVersion) :
    GetPhase → Prop
  | .idle => True
  | .looking _ now | .sizing _ now => now ≤ s.time
  | .timing _ now size =>
      now ≤ s.time ∧ ∃ version, sized = some version ∧ size = version.content.length
  | .revalidating path now size modified | .reading path now size modified =>
      ∃ version, sized = some version ∧ size = version.content.length ∧
        modified = version.modified ∧ s.HadSince path.toBytes version now
  | .inserting path now file modified => s.ContentSince path.toBytes file.body modified now
  | .returned _ _ none => True
  | .returned path now (some file) =>
      ∃ version, s.HadSince path.toBytes version (now - interval) ∧ file.body = version.content

structure FreshWorld (s : CacheWorld ι) : Prop where
  present : (s.time, s.disk) ∈ s.moments
  distinct : ∀ key u v, s.Known key u → s.Known key v → u.modified = v.modified → u = v
  cache : s.cache.Holds fun key entry =>
    s.ContentSince key entry.file.body entry.modified entry.validatedAt
  threads : ∀ i, FreshPhase s s.cache.interval (s.sized i) (s.threads i)

section Fresh

variable {s : CacheWorld ι}

theorem CacheWorld.HadSince.earlier {key : Bytes} {version : FileVersion} {since since' : Int}
    (h : s.HadSince key version since) (hle : since' ≤ since) : s.HadSince key version since' := by
  obtain ⟨m, hhad, hm⟩ := h
  exact ⟨m, hhad, hle.trans hm⟩

/-- What a call hands on has been there since it began, so it is not too old. -/
theorem freshPhase_returned {path : Path} {now : Int} {file : CachedStaticFile} {modified : Int}
    (interval : Nat) (sized : Option FileVersion)
    (h : s.ContentSince path.toBytes file.body modified now) :
    FreshPhase s interval sized (.returned path now (some file)) := by
  obtain ⟨version, hsince, hbody, -⟩ := h
  exact ⟨version, hsince.earlier (by omega), hbody⟩

theorem freshWorld_get [DecidableEq ι] (hs : FreshWorld s) {i : ι} {access : GetAccess}
    {cache : StaticFileCache} {phase : GetPhase} (hanswer : s.Answers access)
    (hcalm : CallsUndisturbed s (.get i access))
    (hget : GetStep hash s.cache (s.threads i) access cache phase) :
    (cache.Holds fun key entry =>
        s.ContentSince key entry.file.body entry.modified entry.validatedAt) ∧
      FreshPhase s s.cache.interval (s.noteSize i access i) phase := by
  have hphase := hs.threads i
  generalize hthread : s.threads i = thread at hget hphase
  cases hget with
  | call path now => exact ⟨hs.cache, le_of_eq hanswer⟩
  | look path now =>
      obtain ⟨entry, hlookup, hfresh, hfound⟩ | hnone := look_cases s.cache hash path now
      · rw [hfound]
        obtain ⟨version, hsince, hbody, -⟩ := hs.cache.lookup hlookup
        refine ⟨hs.cache, version, hsince.earlier ?_, hbody⟩
        rw [StaticFileCache.interval]
        omega
      · rw [hnone]
        exact ⟨hs.cache, hphase⟩
  | fileSize path now answer =>
      rcases hanswer with hnone | hdisk
      · exact absurd hnone hcalm
      · cases hversion : s.disk path.toBytes with
        | none =>
            rw [hversion] at hdisk
            exact absurd hdisk hcalm
        | some version =>
            rw [hversion] at hdisk
            rw [hdisk]
            refine ⟨hs.cache, hphase, version, ?_, rfl⟩
            simp only [CacheWorld.noteSize, Function.update_self]
            exact hversion
  | lastWriteTime path now size answer =>
      obtain ⟨hsucceeds, hsame⟩ := hcalm
      obtain ⟨hnow, version, hsized, hsize⟩ := hphase
      rw [hsized] at hsame
      have hdisk := hanswer.resolve_left hsucceeds
      rw [hsame] at hdisk
      rw [hdisk]
      exact ⟨hs.cache, version, hsized, hsize, rfl, s.time, ⟨s.disk, hs.present, hsame⟩, hnow⟩
  | recheck path now size modified =>
      obtain ⟨version, hsized, hsize, hmodified, hsince⟩ := hphase
      obtain ⟨entry, hlookup, hunchanged, -, hfound⟩ | hnone :=
        recheck_cases s.cache hash path now size modified
      · -- the entry's version has the time of the present one, so it is the same
        obtain ⟨old, ⟨m, hold, -⟩, hbody, holdModified⟩ := hs.cache.lookup hlookup
        obtain ⟨m', hnew, -⟩ := id hsince
        have hsame : old = version := hs.distinct _ _ _ ⟨m, hold⟩ ⟨m', hnew⟩
          (by rw [← holdModified, ← hunchanged, hmodified])
        have hentry : s.ContentSince path.toBytes entry.file.body entry.modified now :=
          ⟨version, hsince, hsame ▸ hbody, hsame ▸ holdModified⟩
        rw [hfound]
        exact ⟨hs.cache.recheck rfl hentry,
          freshPhase_returned (s.cache.revalidateInterval * 1000000) _ hentry⟩
      · rw [hnone]
        exact ⟨hs.cache, version, hsized, hsize, hmodified, hsince⟩
  | content path now size modified answer =>
      obtain ⟨version, hsized, hsize, hmodified, hsince⟩ := hphase
      obtain ⟨hsucceeds, hsame⟩ := hcalm
      rw [hsized] at hsame
      have hdisk := hanswer.resolve_left hsucceeds
      rw [hsame] at hdisk
      obtain ⟨hcache, ⟨-, hnext⟩ | ⟨body, hbody, hnext⟩⟩ :=
        fetch_cases s.cache path now size modified answer
      · rw [hcache, hnext]
        exact ⟨hs.cache, trivial⟩
      · rw [hdisk] at hbody
        obtain ⟨hwhole, -, -⟩ := readBody_whole (Or.inr ⟨hsize.symm, hmodified.symm⟩) hbody
        have hfile : s.ContentSince path.toBytes body modified now :=
          ⟨version, hsince, hwhole, hmodified⟩
        rcases hnext with ⟨-, hnext⟩ | ⟨-, hnext⟩
        · rw [hcache, hnext]
          exact ⟨hs.cache, freshPhase_returned (s.cache.revalidateInterval * 1000000) _ hfile⟩
        · rw [hcache, hnext]
          exact ⟨hs.cache, hfile⟩
  | insert path now file modified =>
      exact ⟨hs.cache.insert hphase,
        freshPhase_returned (s.cache.revalidateInterval * 1000000) _ hphase⟩
  | back path now result => exact ⟨hs.cache, trivial⟩

theorem CacheWorld.ContentSince.mono {s' : CacheWorld ι}
    (h : ∀ key version m, s.Had key version m → s'.Had key version m) {key body : Bytes}
    {modified since : Int} (hs : s.ContentSince key body modified since) :
    s'.ContentSince key body modified since := by
  obtain ⟨version, ⟨m, hhad, hm⟩, hbody, hmodified⟩ := hs
  exact ⟨version, ⟨m, h _ _ _ hhad, hm⟩, hbody, hmodified⟩

theorem FreshPhase.mono {s' : CacheWorld ι}
    (h : ∀ key version m, s.Had key version m → s'.Had key version m) (htime : s.time ≤ s'.time)
    {interval : Int} {sized : Option FileVersion} {phase : GetPhase}
    (hs : FreshPhase s interval sized phase) : FreshPhase s' interval sized phase := by
  cases phase with
  | idle => trivial
  | looking path now => exact hs.trans htime
  | sizing path now => exact hs.trans htime
  | timing path now size => exact ⟨hs.1.trans htime, hs.2⟩
  | revalidating path now size modified =>
      obtain ⟨version, hsized, hsize, hmodified, m, hhad, hm⟩ := hs
      exact ⟨version, hsized, hsize, hmodified, m, h _ _ _ hhad, hm⟩
  | reading path now size modified =>
      obtain ⟨version, hsized, hsize, hmodified, m, hhad, hm⟩ := hs
      exact ⟨version, hsized, hsize, hmodified, m, h _ _ _ hhad, hm⟩
  | inserting path now file modified => exact CacheWorld.ContentSince.mono h hs
  | returned path now result =>
      cases result with
      | none => trivial
      | some file =>
          obtain ⟨version, ⟨m, hhad, hm⟩, hbody⟩ := hs
          exact ⟨version, ⟨m, h _ _ _ hhad, hm⟩, hbody⟩

/-- Where a version of the run comes from. -/
theorem known_step [DecidableEq ι] {s' : CacheWorld ι} {event : WorldEvent ι}
    (h : WorldStep hash s event s') (hpresent : (s.time, s.disk) ∈ s.moments) {key : Bytes}
    {version : FileVersion} (hknown : s'.Known key version) :
    s.Known key version ∨ event = .replace key version := by
  obtain ⟨m, disk, hmem, hdisk⟩ := hknown
  cases h with
  | get i access cache phase h hanswer => exact Or.inl ⟨m, disk, hmem, hdisk⟩
  | replace key' version' hnew =>
      rcases List.mem_cons.mp hmem with hnow | hold
      · cases hnow
        rw [Function.update_apply] at hdisk
        split at hdisk
        · next hkey =>
            cases hdisk
            exact Or.inr (by rw [hkey])
        · exact Or.inl ⟨s.time, s.disk, hpresent, hdisk⟩
      · exact Or.inl ⟨m, disk, hold, hdisk⟩
  | remove key' =>
      rcases List.mem_cons.mp hmem with hnow | hold
      · cases hnow
        rw [Function.update_apply] at hdisk
        split at hdisk
        · cases hdisk
        · exact Or.inl ⟨s.time, s.disk, hpresent, hdisk⟩
      · exact Or.inl ⟨m, disk, hold, hdisk⟩
  | tick time h =>
      rcases List.mem_cons.mp hmem with hnow | hold
      · cases hnow
        exact Or.inl ⟨s.time, s.disk, hpresent, hdisk⟩
      · exact Or.inl ⟨m, disk, hold, hdisk⟩

/-- A modification time stands for one version, since a replacement brings a new one. -/
theorem distinct_step [DecidableEq ι] {s' : CacheWorld ι} {event : WorldEvent ι}
    (h : WorldStep hash s event s') (hpresent : (s.time, s.disk) ∈ s.moments)
    (hdistinct : ∀ key u v, s.Known key u → s.Known key v → u.modified = v.modified → u = v)
    (key : Bytes) (u v : FileVersion) (hu : s'.Known key u) (hv : s'.Known key v)
    (huv : u.modified = v.modified) : u = v := by
  have hnew : ∀ {key' : Bytes} {new old : FileVersion}, event = .replace key' new →
      s.Known key' old → old.modified ≠ new.modified := by
    intro key' new old hevent hold
    rw [hevent] at h
    cases h with
    | replace key' new hnew => exact hnew old hold.choose hold.choose_spec
  rcases known_step h hpresent hu with hu | hu
  · rcases known_step h hpresent hv with hv | hv
    · exact hdistinct key u v hu hv huv
    · exact absurd huv (hnew hv hu)
  · rcases known_step h hpresent hv with hv | hv
    · exact absurd huv.symm (hnew hu hv)
    · rw [hu] at hv
      cases hv
      rfl

theorem freshWorld_step [DecidableEq ι] {s' : CacheWorld ι} (hs : FreshWorld s)
    (h : CalmStep hash s s') : FreshWorld s' := by
  obtain ⟨event, hcalm, hstep⟩ := h
  have hhad : ∀ key version m, s.Had key version m → s'.Had key version m :=
    fun key version m hhad => had_step hstep hhad
  have hpresent := present_step hstep hs.present
  have hdistinct := distinct_step hstep hs.present hs.distinct
  have hold : s.cache.Holds fun key entry =>
      s'.ContentSince key entry.file.body entry.modified entry.validatedAt :=
    fun shard hshard row hrow => (hs.cache shard hshard row hrow).mono hhad
  cases hstep with
  | get i access cache phase hget hanswer =>
      obtain ⟨hcache, hphase⟩ := freshWorld_get hs hanswer hcalm hget
      have hinterval : cache.interval = s.cache.interval := by
        rw [StaticFileCache.interval, (sameSettings_step hget).revalidateInterval]
        rfl
      refine ⟨hpresent, hdistinct, hcache, fun j => ?_⟩
      simp only [Function.update_apply, hinterval]
      split
      · next hj =>
          rw [hj]
          exact hphase
      · next hj =>
          have hkept : s.noteSize i access j = s.sized j := by
            cases access with
            | fileSize path answer => exact Function.update_of_ne hj _ _
            | _ => rfl
          rw [hkept]
          exact hs.threads j
  | replace key version hnew =>
      exact ⟨hpresent, hdistinct, hold, fun i => (hs.threads i).mono hhad le_rfl⟩
  | remove key => exact ⟨hpresent, hdistinct, hold, fun i => (hs.threads i).mono hhad le_rfl⟩
  | tick time h => exact ⟨hpresent, hdistinct, hold, fun i => (hs.threads i).mono hhad h⟩

theorem freshWorld_initial (h : s.Initial) : FreshWorld s := by
  obtain ⟨⟨enabled, shardCount, maxEntries, maxBytes, maxFileBytes, milliseconds, hcache, hidle⟩,
    hmoments⟩ := h
  refine ⟨by rw [hmoments]; exact List.mem_cons_self, ?_, ?_, fun i => ?_⟩
  · intro key u v ⟨m, disk, hmem, hu⟩ ⟨m', disk', hmem', hv⟩ _
    rw [hmoments, List.mem_singleton] at hmem hmem'
    cases hmem
    cases hmem'
    rw [hu] at hv
    cases hv
    rfl
  · intro shard hshard row hrow
    rw [hcache] at hshard
    rw [List.eq_of_mem_replicate hshard] at hrow
    cases hrow
  · rw [hidle i]
    trivial

/-- In every run on a clock that does not go back, whose accesses succeed and in
which no file changes between the accesses of one call to it: what a call
returns is the content the file had at some moment not earlier than the start
of the call less the interval. -/
theorem bounded_staleness [DecidableEq ι]
    (h : Reachable CacheWorld.Initial (CalmStep hash) s) {i : ι} {path : Path} {now : Int}
    {file : CachedStaticFile} (hreturned : s.threads i = .returned path now (some file)) :
    ∃ version m, s.Had path.toBytes version m ∧ now - s.cache.interval ≤ m ∧
      file.body = version.content := by
  have hfresh := (h.invariant (fun _ hs => freshWorld_initial hs)
    fun _ _ hs hstep => freshWorld_step hs hstep).threads i
  rw [hreturned] at hfresh
  obtain ⟨version, ⟨m, hhad, hm⟩, hbody⟩ := hfresh
  exact ⟨version, m, hhad, hm, hbody⟩

end Fresh

theorem bounded_staleness_page :
    ∃ s : CacheWorld Unit, Reachable CacheWorld.Initial (CalmStep fun key => key.length) s ∧
      ∃ file : CachedStaticFile, s.threads () = .returned pagePath 0 (some file) ∧
      ∃ version m, s.Had pagePath.toBytes version m ∧ 0 - s.cache.interval ≤ m ∧
        file.body = version.content := by
  have start : Reachable CacheWorld.Initial (CalmStep fun key => key.length) pageWorld :=
    .start pageWorld_initial
  have called := start.step ⟨.get () (.call pagePath 0), trivial,
    .get _ () _ _ _ (.call _ pagePath 0) rfl⟩
  have looked := called.step ⟨.get () .nothing, trivial,
    .get _ () _ _ _ (.look _ pagePath 0) trivial⟩
  have sized := looked.step ⟨.get () (.fileSize pagePath (some 3)), Option.some_ne_none _,
    .get _ () _ _ _ (.fileSize _ pagePath 0 (some 3)) (Or.inr rfl)⟩
  have timed := sized.step ⟨.get () (.lastWriteTime pagePath (some 1)),
    ⟨Option.some_ne_none _, rfl⟩,
    .get _ () _ _ _ (.lastWriteTime _ pagePath 0 3 (some 1)) (Or.inr rfl)⟩
  have rechecked := timed.step ⟨.get () .nothing, trivial,
    .get _ () _ _ _ (.recheck _ pagePath 0 3 1) trivial⟩
  have read := rechecked.step ⟨.get () (.content pagePath (some (bytes "old"))),
    ⟨Option.some_ne_none _, rfl⟩,
    .get _ () _ _ _ (.content _ pagePath 0 3 1 (some (bytes "old"))) (Or.inr rfl)⟩
  have inserted := read.step ⟨.get () .nothing, trivial,
    .get _ () _ _ _ (.insert _ pagePath 0 _ 1) trivial⟩
  exact ⟨_, inserted, _, rfl, bounded_staleness inserted (i := ()) rfl⟩

end HydrogenHttpd.Ref
