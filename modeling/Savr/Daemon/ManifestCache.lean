import Savr.Core.Confine
import Savr.Lib.Run
import Savr.Lib.Utf8
import Savr.Server.Tokens

/-!
# The cached manifest

`savr-daemon/src/manifest_sync.rs`: the manifest is fetched with the entity tag of the cached
copy, and written before its tag.  Neither write is atomic.

A tag says what the copy next to it is, and a part of a tag says nothing: the closing quote is
its last character.  So a tag that the server recognises was written after a whole copy of
the version it stands for, and no write to the copy has begun since.

## Main results

* `Cached.refresh` — what a refresh leaves in the cache, however it ends.
* `refresh_returns_current` — a refresh that was answered returns what the server has.
-/

namespace Savr

open Hoare LabelledRun

universe u

/-! ## The program -/

/-- What the request comes to. A body that breaks off is an error of the request, so `ok` has
all of it. -/
inductive ManifestReply
  /-- The request fails. -/
  | unreachable
  | notModified
  /-- Another status, or a body that breaks off. -/
  | failed
  | ok (etag : Option String) (body : String)
  deriving DecidableEq, Repr

/-- What a refresh produced. -/
structure RefreshOutcome (M : Type u) where
  manifest : M
  notModified : Bool
  entryCount : ℕ

/-- Where the manifest is cached. -/
def manifestPath (cacheDir : PathBuf) : PathBuf := cacheDir ++ [.normal "manifest.yaml"]

/-- Where its entity tag is cached. -/
def etagPath (cacheDir : PathBuf) : PathBuf := cacheDir ++ [.normal "manifest.etag"]

section Program

variable {M : Type} (pf : Platform) (parse : String → Except String M) (len : M → ℕ)
  (cacheDir : PathBuf)

/-- `std::fs::read_to_string`. -/
def readToString (path : PathBuf) : Io String := do
  let bytes ← readFile pf path
  match Utf8.decode bytes with
  | some text => pure (String.ofList text)
  | none => Prog.throw (.bail "stream did not contain valid UTF-8")

/-- `manifest::parse`, in a program. -/
def parseManifest (text : String) : Io M :=
  match parse text with
  | .ok manifest => pure manifest
  | .error e => Prog.throw (.bail e)

/-- Parse whatever is currently cached, if anything. -/
def loadCached : Io (Option M) := do
  match ← Prog.tried (readToString pf (manifestPath cacheDir)) with
  | .ok text => do
      let manifest ← parseManifest parse text
      pure (some manifest)
  | .error .notFound => pure none
  | .error e => Prog.throw e

/-- Fetch conditionally, cache, and parse the manifest. The body is parsed before anything is
stored, and stored before its tag; either write may be cut. -/
def refreshManifest (fetch : Option String → ManifestReply) : Io (RefreshOutcome M) := do
  createDirAll pf cacheDir
  let stored ← Prog.tried (readToString pf (etagPath cacheDir))
  match fetch (stored.toOption.map trimHeader) with
  | .unreachable => do
      match ← loadCached pf parse cacheDir with
      | some manifest => pure ⟨manifest, true, len manifest⟩
      | none => Prog.throw .network
  | .notModified => do
      match ← loadCached pf parse cacheDir with
      | some manifest => pure ⟨manifest, true, len manifest⟩
      | none => Prog.throw (.bail "server said 304 but no cached manifest exists")
  | .failed => Prog.throw .network
  | .ok etag body => do
      let manifest ← parseManifest parse body
      createFile pf (manifestPath cacheDir) (Utf8.encode body.toList)
      match etag with
      | some etag => createFile pf (etagPath cacheDir) (Utf8.encode etag.toList)
      | none => pure ⟨⟩
      pure ⟨manifest, false, len manifest⟩

end Program

/-! ## The server -/

/-- An entity tag without its mark of weakness. -/
def opaqueTag (etag : String) : String := (stripPrefix "W/" etag).getD etag

/-- The versions of the manifest, in the order in which they are published. -/
structure Upstream where
  etag : ℕ → String
  body : ℕ → String
  /-- A tag ends with the second of its quotes. -/
  closed : ∀ n, ∃ front, (etag n).toList = front ++ ['"'] ∧ front.count '"' = 1
  visible : ∀ n, ∀ c ∈ (etag n).toList, 33 ≤ c.toNat ∧ c.toNat < 127
  distinct : ∀ m n, opaqueTag (etag m) = opaqueTag (etag n) → m = n

namespace Upstream

variable (u : Upstream)

/-- `If-None-Match`, with the weak comparison. -/
def Matches (header : Option String) (n : ℕ) : Prop :=
  ∃ tag, header = some tag ∧ opaqueTag tag = opaqueTag (u.etag n)

/-- The server has this version, and answers conditional requests. -/
def Answers (n : ℕ) (fetch : Option String → ManifestReply) : Prop :=
  ∀ header, match fetch header with
    | .unreachable | .failed => True
    | .notModified => u.Matches header n
    | .ok etag body => ¬ u.Matches header n ∧ body = u.body n ∧ ∀ tag, etag = some tag →
        tag = u.etag n

end Upstream

/-! ## Tags -/

section Tags

variable {u : Upstream} {m n k : ℕ} {tag : String}

/-- The opaque part of a tag has all of its quotes. -/
theorem count_opaqueTag (tag : String) :
    (opaqueTag tag).toList.count '"' = tag.toList.count '"' := by
  rw [opaqueTag, stripPrefix]
  split_ifs with h
  · obtain ⟨rest, hrest⟩ := h
    rw [← hrest, Option.getD_some, List.drop_left, String.toList_ofList, List.count_append]
    simp
  · rfl

/-- **A part of a tag** is no tag. -/
theorem eq_of_take_matches (h : u.Matches (some (String.ofList ((u.etag m).toList.take k))) n) :
    m = n ∧ (u.etag m).toList.take k = (u.etag m).toList := by
  obtain ⟨tag, htag, hopaque⟩ := h
  obtain rfl := Option.some.inj htag
  have hwhole : (u.etag m).toList.take k = (u.etag m).toList := by
    obtain ⟨front, hfront, hcount⟩ := u.closed m
    obtain ⟨front', hfront', hcount'⟩ := u.closed n
    by_contra hne
    -- a proper part lacks the closing quote
    have hlt : k ≤ front.length := by
      by_contra hlong
      refine hne (List.take_of_length_le ?_)
      rw [hfront, List.length_append, List.length_singleton]
      omega
    have htwo := congrArg (fun t => t.toList.count '"') hopaque
    simp only [count_opaqueTag, String.toList_ofList, hfront, hfront', List.count_append,
      List.take_append_of_le_length hlt, hcount'] at htwo
    have hle := (List.take_sublist k front).count_le '"'
    simp at htwo
    omega
  refine ⟨u.distinct m n ?_, hwhole⟩
  rwa [hwhole, String.ofList_toList] at hopaque

/-- The tag that a file stands for. -/
def tagOf (bytes : Bytes) : Option String :=
  (Utf8.decode bytes).map fun text => trimHeader (String.ofList text)

theorem decode_encode (text : List Char) : Utf8.decode (Utf8.encode text) = some text := by
  have hencode : (Utf8.encode text).toByteArray = text.utf8Encode := rfl
  rw [Utf8.decode, hencode, List.utf8Decode?_utf8Encode, Option.map_some]

/-- A cut of an ASCII text is a cut between characters. -/
theorem take_encode_of_ascii {text : List Char} (h : ∀ c ∈ text, c.toNat < 128) (k : ℕ) :
    (Utf8.encode text).take k = Utf8.encode (text.take k) := by
  have hmap : ∀ l : List Char, (∀ c ∈ l, c.toNat < 128) →
      Utf8.encode l = l.map fun c => UInt8.ofNat c.toNat := by
    intro l hl
    induction l with
    | nil => rfl
    | cons c l ih =>
        rw [Utf8.encode_cons, Utf8.encodeChar_of_ascii (hl c List.mem_cons_self),
          ih fun d hd => hl d (List.mem_cons_of_mem c hd)]
        rfl
  rw [hmap text h, hmap _ fun c hc => h c (List.mem_of_mem_take hc), List.map_take]

/-- What is read from a part of a tag. -/
theorem tagOf_take (u : Upstream) (n k : ℕ) :
    tagOf ((Utf8.encode (u.etag n).toList).take k)
      = some (String.ofList ((u.etag n).toList.take k)) := by
  have hvisible := u.visible n
  rw [take_encode_of_ascii (fun c hc => (hvisible c hc).2.trans (by decide)), tagOf, decode_encode,
    Option.map_some, trimHeader_eq_self]
  intro c hc
  rw [String.toList_ofList] at hc
  have hc := hvisible c (List.mem_of_mem_take hc)
  constructor <;> rintro rfl <;> exact absurd hc.1 (by decide)

end Tags

/-! ## The cache -/

section Cache

variable {M : Type} {pf : Platform} {parse : String → Except String M} {len : M → ℕ}
  {cacheDir path : PathBuf} {u : Upstream} {n : ℕ} {s₀ s : Fs} {text : String}
  {fetch : Option String → ManifestReply}

/-- What is in the cache, when the server has this version: a copy of some version it had, or
a part of one, and the tag of some version, or a part of it.  A tag that the server recognises
stands next to a whole copy. -/
structure Cached (pf : Platform) (parse : String → Except String M) (cacheDir : PathBuf)
    (u : Upstream) (n : ℕ) (files : PathBuf → Option Bytes) : Prop where
  copied : ∀ bytes, files (pf.key (manifestPath cacheDir)) = some bytes →
    ∃ m ≤ n, (∃ k, bytes = (Utf8.encode (u.body m).toList).take k) ∧
      ∃ manifest, parse (u.body m) = .ok manifest
  tagged : ∀ bytes, files (pf.key (etagPath cacheDir)) = some bytes →
    ∃ m ≤ n, ∃ k, bytes = (Utf8.encode (u.etag m).toList).take k
  fresh : ∀ bytes, files (pf.key (etagPath cacheDir)) = some bytes → u.Matches (tagOf bytes) n →
    files (pf.key (manifestPath cacheDir)) = some (Utf8.encode (u.body n).toList)

/-- The stored tag can be read, if there is one.  A refresh that cannot read it takes it that there
is none (`ok()`) and asks for the whole manifest; if its copy is then cut, the old tag stays next
to it, and the next refresh has the cut copy confirmed. -/
def TagReadable (pf : Platform) (cacheDir : PathBuf) (s : Fs) : Prop :=
  ∀ s', createDirAll pf cacheDir s = (.ok ⟨⟩, s') →
    ∀ e, (readToString pf (etagPath cacheDir) s').1 = .error e →
      s'.files (pf.key (etagPath cacheDir)) = none

/-- What a file was cut to. -/
theorem createFile_take {content : Bytes} : Triple (fun s => s = s₀) (createFile pf path content)
    (fun _ s => s.files = Function.update s₀.files (pf.key path) (some content))
    fun s => s.files = s₀.files ∨
      ∃ k, s.files = Function.update s₀.files (pf.key path) (some (content.take k)) := by
  refine triple_nextFate pf fun fate start hnow => triple_get_bind ?_
  rintro now rfl
  have hkept : ∀ s, s = now → s.files = s₀.files ∨ ∃ k, s.files =
      Function.update s₀.files (pf.key path) (some (content.take k)) := fun s hs =>
    .inl (hs ▸ hnow.files)
  have hwrite : Triple (fun s => s = now) (Prog.modify fun s : Fs =>
      { s with
        tree := s.tree.put pf path (.file (fate.written content))
        touched := path :: s.touched } : Io PUnit)
      (fun _ s => s.files = Function.update s₀.files (pf.key path)
        (some (fate.written content))) fun _ => False := by
    refine triple_modify ?_
    rintro s rfl
    rw [files_put_file, hnow.files]
  split_ifs with hrefused hdir hparent hgranted
  · exact triple_throw hkept
  · exact triple_throw hkept
  · subst hgranted
    exact triple_bind (hwrite.conseq (fun _ h => h) (fun _ _ h => h) fun _ h => h.elim)
      fun _ => triple_pure fun s hs => hs
  · refine triple_bind (hwrite.conseq (fun _ h => h) (fun _ _ h => h) fun _ h => h.elim)
      fun _ => triple_throw fun s hs => ?_
    cases fate with
    | granted => exact absurd rfl hgranted
    | refused => exact absurd rfl hrefused
    | cut k => exact .inr ⟨k, hs⟩
  · exact triple_throw hkept

/-- Reading a text leaves the files as they are and gives the file's text. -/
theorem readToString_spec : Triple (fun s => s = s₀) (readToString pf path)
    (fun text s => s.files = s₀.files ∧ ∃ bytes, s₀.files (pf.key path) = some bytes ∧
      Utf8.decode bytes = some text.toList) fun s => s.files = s₀.files := by
  refine triple_bind (readFile_spec.conseq (fun _ h => h) (fun _ _ h => h)
    fun _ h => h.files) fun bytes => ?_
  cases hdecode : Utf8.decode bytes with
  | none => exact triple_throw fun s hs => hs.2.files
  | some text =>
      refine triple_pure fun s hs => ⟨hs.2.files, bytes, hs.1, ?_⟩
      rw [hdecode, String.toList_ofList]

theorem parseManifest_spec : Triple (fun s => s = s₀) (parseManifest parse text)
    (fun manifest s => s = s₀ ∧ parse text = .ok manifest) fun s => s = s₀ := by
  rw [parseManifest]
  cases hparse : parse text with
  | error e => exact triple_throw fun _ hs => hs
  | ok manifest => exact triple_pure fun _ hs => ⟨hs, rfl⟩

/-- What is loaded is parsed from the copy. -/
theorem loadCached_spec : Triple (fun s => s = s₀) (loadCached pf parse cacheDir)
    (fun r s => s.files = s₀.files ∧ ∀ manifest, r = some manifest → ∃ bytes text,
      s₀.files (pf.key (manifestPath cacheDir)) = some bytes ∧
      Utf8.decode bytes = some text ∧ parse (String.ofList text) = .ok manifest)
    fun s => s.files = s₀.files := by
  refine triple_bind (R := fun (r : Except Failure String) s => s.files = s₀.files ∧
    ∀ text, r = .ok text → ∃ bytes, s₀.files (pf.key (manifestPath cacheDir)) = some bytes ∧
      Utf8.decode bytes = some text.toList) ?_ fun r => ?_
  · refine triple_tried (readToString_spec.conseq (fun _ h => h) ?_ ?_)
    · rintro text s ⟨hfiles, hbytes⟩
      exact ⟨hfiles, fun _ h => Except.ok.inj h ▸ hbytes⟩
    · exact fun s hfiles e _ => ⟨hfiles, fun _ h => nomatch h⟩
  · rcases r with e | text
    · cases e with
      | notFound => exact triple_pure fun s hs => ⟨hs.1, fun _ h => nomatch h⟩
      | _ => exact triple_throw fun s hs => hs.1
    · refine triple_of_state fun s₁ hs₁ => ?_
      obtain ⟨hfiles, hread⟩ := hs₁
      obtain ⟨bytes, hbytes, hdecode⟩ := hread text rfl
      refine triple_bind (parseManifest_spec.conseq (fun _ h => h) (fun _ _ h => h)
        fun _ h => h ▸ hfiles) fun manifest => triple_pure ?_
      rintro s ⟨rfl, hparse⟩
      refine ⟨hfiles, fun manifest' hmanifest => ⟨bytes, text.toList, hbytes, hdecode, ?_⟩⟩
      rw [String.ofList_toList, hparse, Option.some.inj hmanifest]

/-- The tag that is sent with the request. -/
theorem readTag_spec (readable : ∀ e, (readToString pf (etagPath cacheDir) s₀).1 = .error e →
    s₀.files (pf.key (etagPath cacheDir)) = none) :
    Triple (fun s => s = s₀) (Prog.tried (readToString pf (etagPath cacheDir)) : Io _)
      (fun stored s => s.files = s₀.files ∧
        ((∃ bytes, s₀.files (pf.key (etagPath cacheDir)) = some bytes ∧
            stored.toOption.map trimHeader = tagOf bytes) ∨
          s₀.files (pf.key (etagPath cacheDir)) = none ∧ stored.toOption.map trimHeader = none))
      fun _ => False := by
  refine triple_tried (readToString_spec.conseq (fun _ h => h) ?_ ?_)
  · rintro text s ⟨hfiles, bytes, hbytes, hdecode⟩
    refine ⟨hfiles, .inl ⟨bytes, hbytes, ?_⟩⟩
    rw [tagOf, hdecode, Option.map_some, String.ofList_toList]
    rfl
  · rintro s hfiles e ⟨s', rfl, hrun⟩
    exact ⟨hfiles, .inr ⟨readable e (congrArg Prod.fst hrun), rfl⟩⟩

theorem Cached.of_files {files : PathBuf → Option Bytes}
    (cached : Cached pf parse cacheDir u n s₀.files) (hfiles : files = s₀.files) :
    Cached pf parse cacheDir u n files :=
  hfiles ▸ cached

/-- A write to the copy, when the server does not recognise the tag. -/
theorem Cached.write (keys : pf.key (manifestPath cacheDir) ≠ pf.key (etagPath cacheDir))
    (cached : Cached pf parse cacheDir u n s₀.files)
    (stale : ∀ bytes, s₀.files (pf.key (etagPath cacheDir)) = some bytes →
      ¬ u.Matches (tagOf bytes) n) {manifest : M} (hparse : parse (u.body n) = .ok manifest)
    (k : ℕ) : Cached pf parse cacheDir u n (Function.update s₀.files
      (pf.key (manifestPath cacheDir)) (some ((Utf8.encode (u.body n).toList).take k))) := by
  refine ⟨fun bytes hbytes => ?_, fun bytes hbytes => ?_, fun bytes hbytes hmatches => ?_⟩
  · rw [Function.update_self] at hbytes
    exact ⟨n, le_rfl, ⟨k, (Option.some.inj hbytes).symm⟩, manifest, hparse⟩
  · rw [Function.update_of_ne keys.symm] at hbytes
    exact cached.tagged bytes hbytes
  · rw [Function.update_of_ne keys.symm] at hbytes
    exact absurd hmatches (stale bytes hbytes)

/-- A write to the tag, next to a whole copy. -/
theorem Cached.tag (keys : pf.key (manifestPath cacheDir) ≠ pf.key (etagPath cacheDir))
    (cached : Cached pf parse cacheDir u n s₀.files)
    (whole : s₀.files (pf.key (manifestPath cacheDir)) = some (Utf8.encode (u.body n).toList))
    (k : ℕ) : Cached pf parse cacheDir u n (Function.update s₀.files
      (pf.key (etagPath cacheDir)) (some ((Utf8.encode (u.etag n).toList).take k))) := by
  refine ⟨fun bytes hbytes => ?_, fun bytes hbytes => ?_, fun bytes hbytes _ => ?_⟩
  · rw [Function.update_of_ne keys] at hbytes
    exact cached.copied bytes hbytes
  · rw [Function.update_self] at hbytes
    exact ⟨n, le_rfl, k, (Option.some.inj hbytes).symm⟩
  · rw [Function.update_of_ne keys]
    exact whole

/-- What a refresh returns: the version of the server; or, when nobody answered, what is
parsed from a part of a version that the server had. -/
def Returns (parse : String → Except String M) (u : Upstream) (n : ℕ)
    (fetch : Option String → ManifestReply) (manifest : M) : Prop :=
  parse (u.body n) = .ok manifest ∨ (∃ header, fetch header = .unreachable) ∧
    ∃ m ≤ n, ∃ k text, Utf8.decode ((Utf8.encode (u.body m).toList).take k) = some text ∧
      parse (String.ofList text) = .ok manifest

/-- **A refresh** keeps the cache in order, however it ends, and a refresh that was answered
returns the version of the server. -/
theorem Cached.refresh (keys : pf.key (manifestPath cacheDir) ≠ pf.key (etagPath cacheDir))
    (cached : Cached pf parse cacheDir u n s₀.files) (readable : TagReadable pf cacheDir s₀)
    (answers : u.Answers n fetch) :
    Triple (fun s => s = s₀) (refreshManifest pf parse len cacheDir fetch)
      (fun outcome s => Cached pf parse cacheDir u n s.files ∧
        Returns parse u n fetch outcome.manifest)
      fun s => Cached pf parse cacheDir u n s.files := by
  have hself : Triple (fun s => s = s₀) (createDirAll pf cacheDir)
      (fun _ s => createDirAll pf cacheDir s₀ = (.ok ⟨⟩, s)) fun _ => True := by
    rintro s rfl
    exact ⟨fun _ _ hrun => hrun, fun _ _ _ => trivial⟩
  refine triple_bind ((createDirAll_spec.and hself).conseq (fun _ h => h) (fun _ _ h => h)
    fun _ h => cached.of_files h.1.files) fun _ => triple_of_state fun s₁ hs₁ => ?_
  obtain ⟨hkept, hrun⟩ := hs₁
  replace cached : Cached pf parse cacheDir u n s₁.files := cached.of_files hkept.files
  refine triple_bind ((readTag_spec (readable s₁ hrun)).conseq (fun _ h => h) (fun _ _ h => h)
    fun _ h => h.elim) fun stored => triple_of_state fun s₂ hs₂ => ?_
  obtain ⟨hfiles, hheader⟩ := hs₂
  replace cached : Cached pf parse cacheDir u n s₂.files := cached.of_files hfiles
  rw [← hfiles] at hheader
  have hanswer := answers (stored.toOption.map trimHeader)
  rcases hfetch : fetch (stored.toOption.map trimHeader) with - | - | - | ⟨etag, body⟩ <;>
    rw [hfetch] at hanswer
  · -- nobody answers
    refine triple_bind (loadCached_spec.conseq (fun _ h => h) (fun _ _ h => h)
      fun _ h => cached.of_files h) fun r => ?_
    cases r with
    | none => exact triple_throw fun s hs => cached.of_files hs.1
    | some manifest =>
        refine triple_pure fun s hs => ⟨cached.of_files hs.1, .inr ⟨⟨_, hfetch⟩, ?_⟩⟩
        obtain ⟨bytes, text, hbytes, hdecode, hparse⟩ := hs.2 manifest rfl
        obtain ⟨m, hm, ⟨k, rfl⟩, -⟩ := cached.copied bytes hbytes
        exact ⟨m, hm, k, text, hdecode, hparse⟩
  · -- the tag stands next to a whole copy
    have hwhole : s₂.files (pf.key (manifestPath cacheDir))
        = some (Utf8.encode (u.body n).toList) := by
      rcases hheader with ⟨bytes, hbytes, hheader⟩ | ⟨-, hheader⟩
      · exact cached.fresh bytes hbytes (hheader ▸ hanswer)
      · obtain ⟨tag, htag, -⟩ := hanswer
        rw [hheader] at htag
        cases htag
    refine triple_bind (loadCached_spec.conseq (fun _ h => h) (fun _ _ h => h)
      fun _ h => cached.of_files h) fun r => ?_
    cases r with
    | none => exact triple_throw fun s hs => cached.of_files hs.1
    | some manifest =>
        refine triple_pure fun s hs => ⟨cached.of_files hs.1, .inl ?_⟩
        obtain ⟨bytes, text, hbytes, hdecode, hparse⟩ := hs.2 manifest rfl
        obtain rfl := Option.some.inj (hbytes.symm.trans hwhole)
        rw [decode_encode] at hdecode
        obtain rfl := Option.some.inj hdecode
        rwa [String.ofList_toList] at hparse
  · exact triple_throw fun s hs => hs ▸ cached
  · obtain ⟨hstale, rfl, htag⟩ := hanswer
    have hstale' : ∀ bytes, s₂.files (pf.key (etagPath cacheDir)) = some bytes →
        ¬ u.Matches (tagOf bytes) n := by
      intro bytes hbytes
      rcases hheader with ⟨bytes', hbytes', hheader⟩ | ⟨hnone, -⟩
      · obtain rfl := Option.some.inj (hbytes.symm.trans hbytes')
        exact hheader ▸ hstale
      · rw [hnone] at hbytes
        cases hbytes
    refine triple_bind (parseManifest_spec.conseq (fun _ h => h) (fun _ _ h => h)
      fun _ h => h ▸ cached) fun manifest => triple_of_state fun s₃ hs₃ => ?_
    obtain ⟨rfl, hparse⟩ := hs₃
    have hwritten := cached.write keys hstale' hparse
    have hfull : ∀ text : List Char,
        (Utf8.encode text).take (Utf8.encode text).length = Utf8.encode text := fun _ =>
      List.take_length
    refine triple_bind (createFile_take.conseq (fun _ h => h) (fun _ _ h => h) ?_)
      fun _ => triple_of_state fun s₄ hs₄ => ?_
    · rintro s (hsame | ⟨k, hcut⟩)
      · exact cached.of_files hsame
      · exact hcut ▸ hwritten k
    · have hcopy : Cached pf parse cacheDir u n s₄.files := by
        rw [hs₄, ← hfull]
        exact hwritten _
      have hwhole : s₄.files (pf.key (manifestPath cacheDir))
          = some (Utf8.encode (u.body n).toList) := by
        rw [hs₄, Function.update_self]
      cases etag with
      | none =>
          refine triple_pure ?_
          rintro s rfl
          exact ⟨hcopy, .inl hparse⟩
      | some etag =>
          obtain rfl := htag etag rfl
          have htagged := hcopy.tag keys hwhole
          refine triple_bind (createFile_take.conseq (fun _ h => h) (fun _ _ h => h) ?_)
            fun _ => triple_pure fun s hs => ⟨?_, .inl hparse⟩
          · rintro s (hsame | ⟨k, hcut⟩)
            · exact hcopy.of_files hsame
            · exact hcut ▸ htagged k
          · rw [hs, ← hfull]
            exact htagged _

/-- A new version of the server is not what the stored tag stands for. -/
theorem Cached.publish {n' : ℕ} {files : PathBuf → Option Bytes}
    (cached : Cached pf parse cacheDir u n files) (hle : n ≤ n') :
    Cached pf parse cacheDir u n' files := by
  refine ⟨fun bytes hbytes => ?_, fun bytes hbytes => ?_, fun bytes hbytes hmatches => ?_⟩
  · obtain ⟨m, hm, hcopy⟩ := cached.copied bytes hbytes
    exact ⟨m, hm.trans hle, hcopy⟩
  · obtain ⟨m, hm, htag⟩ := cached.tagged bytes hbytes
    exact ⟨m, hm.trans hle, htag⟩
  · obtain ⟨m, hm, k, rfl⟩ := cached.tagged bytes hbytes
    have hmatches' := hmatches
    rw [tagOf_take] at hmatches'
    obtain ⟨rfl, -⟩ := eq_of_take_matches hmatches'
    obtain rfl : n = m := Nat.le_antisymm hle hm
    exact cached.fresh _ hbytes hmatches

end Cache

/-! ## Runs -/

/-- The files of the computer, and the version of the manifest that the server has. -/
structure ManifestWorld where
  fs : Fs
  current : ℕ

/-- What happens next: the server publishes a version, or a refresh runs. -/
inductive ManifestEvent
  | publish (n : ℕ)
  | refresh (fetch : Option String → ManifestReply)
  /-- Anything that leaves the cache alone. -/
  | other (fs : Fs)

section Runs

variable {M : Type} (pf : Platform) (parse : String → Except String M) (len : M → ℕ)
  (cacheDir : PathBuf) (u : Upstream)

namespace ManifestWorld

/-- The server does not take a version back, and answers with the one it has. -/
def Enabled (w : ManifestWorld) : ManifestEvent → Prop
  | .publish n => w.current ≤ n
  | .refresh fetch => u.Answers w.current fetch ∧ TagReadable pf cacheDir w.fs
  | .other fs => fs.files (pf.key (manifestPath cacheDir))
        = w.fs.files (pf.key (manifestPath cacheDir)) ∧
      fs.files (pf.key (etagPath cacheDir)) = w.fs.files (pf.key (etagPath cacheDir))

/-- The state after an event. -/
def next (w : ManifestWorld) : ManifestEvent → ManifestWorld
  | .publish n => { w with current := n }
  | .refresh fetch => { w with fs := (refreshManifest pf parse len cacheDir fetch w.fs).2 }
  | .other fs => { w with fs }

/-- There is no cache yet. -/
structure New (w : ManifestWorld) : Prop where
  manifest : w.fs.files (pf.key (manifestPath cacheDir)) = none
  etag : w.fs.files (pf.key (etagPath cacheDir)) = none

end ManifestWorld

/-- One event after the other; a refresh runs as a whole. -/
def ManifestStep : ManifestWorld → ManifestEvent → ManifestWorld → Prop :=
  guarded (ManifestWorld.Enabled pf cacheDir u) (ManifestWorld.next pf parse len cacheDir)

variable {pf parse len cacheDir u} {w w' w₀ : ManifestWorld} {ev : ManifestEvent}
  {trace : List ManifestEvent} {fetch : Option String → ManifestReply}

/-- No step leaves the cache with a wrong entity tag. -/
theorem ManifestStep.cached (keys : pf.key (manifestPath cacheDir) ≠ pf.key (etagPath cacheDir))
    (cached : Cached pf parse cacheDir u w.current w.fs.files)
    (step : ManifestStep pf parse len cacheDir u w ev w') :
    Cached pf parse cacheDir u w'.current w'.fs.files := by
  obtain ⟨enabled, rfl⟩ := step
  cases ev with
  | publish n => exact cached.publish enabled
  | refresh fetch =>
      have hrefresh :
          Triple (fun s => s = w.fs) (refreshManifest pf parse len cacheDir fetch) _ _ :=
        cached.refresh keys enabled.2 enabled.1
      exact (hrefresh.conseq (fun _ h => h) (fun _ _ h => h.1) fun _ h => h).final
  | other fs =>
      obtain ⟨hmanifest, hetag⟩ := enabled
      refine ⟨fun bytes hbytes => cached.copied bytes (hmanifest ▸ hbytes),
        fun bytes hbytes => cached.tagged bytes (hetag ▸ hbytes), fun bytes hbytes hmatches => ?_⟩
      exact hmanifest.trans (cached.fresh bytes (hetag ▸ hbytes) hmatches)

/-- So the cache is right in every run. -/
theorem cached_of_run (keys : pf.key (manifestPath cacheDir) ≠ pf.key (etagPath cacheDir))
    (run : Run (ManifestStep pf parse len cacheDir u) w₀ trace w) (new : w₀.New pf cacheDir) :
    Cached pf parse cacheDir u w.current w.fs.files := by
  refine run.invariant (I := fun w => Cached pf parse cacheDir u w.current w.fs.files)
    (fun _ _ _ cached step => step.cached keys cached) ⟨fun bytes hbytes => ?_,
      fun bytes hbytes => ?_, fun bytes hbytes => ?_⟩
  · rw [new.manifest] at hbytes
    cases hbytes
  · rw [new.etag] at hbytes
    cases hbytes
  · rw [new.etag] at hbytes
    cases hbytes

/-- **A refresh that was answered returns what the server has.**  In every run of refreshes that
can read the stored tag, with any of them failing at any other operation and any write cut
anywhere, and with the server publishing versions in between: a refresh that returns has the
manifest of the version the server has then, whether it was sent or confirmed; or nobody
answered, and it has what is parsed from a part of a version the server had. -/
theorem refresh_returns_current
    (keys : pf.key (manifestPath cacheDir) ≠ pf.key (etagPath cacheDir))
    (run : Run (ManifestStep pf parse len cacheDir u) w₀ trace w) (new : w₀.New pf cacheDir)
    (readable : TagReadable pf cacheDir w.fs) (answers : u.Answers w.current fetch)
    {outcome : RefreshOutcome M}
    (returned : (refreshManifest pf parse len cacheDir fetch w.fs).1 = .ok outcome) :
    parse (u.body w.current) = .ok outcome.manifest ∨
      (∃ header, fetch header = .unreachable) ∧
      ∃ m ≤ w.current, ∃ k text,
        Utf8.decode ((Utf8.encode (u.body m).toList).take k) = some text ∧
        parse (String.ofList text) = .ok outcome.manifest :=
  (((cached_of_run keys run new).refresh keys readable answers).ok rfl
    (Prod.ext returned rfl)).2

end Runs

section Example

/-- Version `n` has a tag of `n` letters, and a body of `n` letters. So any two versions have
different tags, and a cut body is another version's. -/
def lettered : Upstream where
  etag n := String.ofList ('"' :: List.replicate n 'e' ++ ['"'])
  body n := String.ofList (List.replicate n 'b')
  closed n := ⟨'"' :: List.replicate n 'e', by simp, by simp [List.count_replicate]⟩
  visible n c hc := by
    have hc : c = '"' ∨ c = 'e' := by
      simp only [String.toList_ofList, List.mem_append, List.mem_cons, List.mem_replicate,
        List.not_mem_nil, or_false] at hc
      tauto
    rcases hc with rfl | rfl <;> decide
  distinct m n h := by
    have hself : ∀ n, opaqueTag (String.ofList ('"' :: List.replicate n 'e' ++ ['"']))
        = String.ofList ('"' :: List.replicate n 'e' ++ ['"']) := by
      intro n
      rw [opaqueTag, stripPrefix, if_neg]
      · rfl
      · rintro ⟨rest, hrest⟩
        have hhead := congrArg List.head? hrest
        simp at hhead
    rw [hself, hself] at h
    have hlength := congrArg (fun t => t.toList.length) h
    simpa using hlength

/-- A server that answers. -/
def answering (u : Upstream) (n : ℕ) : Option String → ManifestReply
  | some tag => if opaqueTag tag = opaqueTag (u.etag n) then .notModified
      else .ok (u.etag n) (u.body n)
  | none => .ok (u.etag n) (u.body n)

/-- The server of the example answers as a server does. -/
theorem answers_answering (u : Upstream) (n : ℕ) : u.Answers n (answering u n) := by
  have hsent : ∀ header, ¬ u.Matches header n → ¬ u.Matches header n ∧ u.body n = u.body n ∧
      ∀ tag, some (u.etag n) = some tag → tag = u.etag n := fun _ h =>
    ⟨h, rfl, fun _ htag => (Option.some.inj htag).symm⟩
  intro header
  cases header with
  | none => exact hsent none fun ⟨_, h, _⟩ => nomatch h
  | some tag =>
      rw [answering]
      split_ifs with h
      · exact ⟨tag, rfl, h⟩
      · exact hsent (some tag) fun ⟨_, htag, hsame⟩ => h (Option.some.inj htag ▸ hsame)

/-- A parser that takes any text but the empty one. -/
def parseLetters (text : String) : Except String String :=
  if text = "" then .error "EOF" else .ok text

/-- A computer without a cache, on which the write of the copy is cut. -/
def cuttingComputer : ManifestWorld where
  fs := { exampleFs [] with fates := [.granted, .granted, .cut 1] }
  current := 2

/-- The cache directory of the example. -/
def cacheOf : PathBuf := exampleDir ["cache"]

/-- A tag that is not there, or that is read, does not stop a refresh from asking with it. -/
theorem tagReadable_of {s : Fs}
    (h : (createDirAll linux cacheOf s).2.files (linux.key (etagPath cacheOf)) = none ∨
      (readToString linux (etagPath cacheOf)
        (createDirAll linux cacheOf s).2).1.toOption.isSome = true) :
    TagReadable linux cacheOf s := by
  rintro s' hs' e he
  obtain rfl : (createDirAll linux cacheOf s).2 = s' := congrArg Prod.snd hs'
  rcases h with h | h
  · exact h
  · rw [he] at h
    cases h

theorem exists_ok_of_map {ε α β : Type} {x : Except ε α} {f : α → β} {b : β}
    (h : x.toOption.map f = some b) : ∃ a, x = .ok a ∧ f a = b := by
  cases x with
  | error e => cases h
  | ok a => exact ⟨a, rfl, Option.some.inj h⟩

/-- The first refresh is cut in the copy, the second one writes it. -/
def cutAndWritten : ManifestWorld :=
  [.refresh (answering lettered 2), .refresh (answering lettered 2)].foldl
    (ManifestWorld.next linux parseLetters String.length cacheOf) cuttingComputer

/-- The third one is told that nothing has changed. -/
theorem confirmed_copy_is_current :
    ∃ outcome : RefreshOutcome String, outcome.notModified = true ∧
      (refreshManifest linux parseLetters String.length cacheOf (answering lettered 2)
        cutAndWritten.fs).1 = .ok outcome ∧
      parseLetters (lettered.body 2) = .ok outcome.manifest := by
  have hflag : (refreshManifest linux parseLetters String.length cacheOf (answering lettered 2)
      cutAndWritten.fs).1.toOption.map (fun o => o.notModified) = some true := by decide +kernel
  obtain ⟨outcome, houtcome, hconfirmed⟩ := exists_ok_of_map hflag
  have hfirst : TagReadable linux cacheOf cuttingComputer.fs :=
    tagReadable_of (.inl (by decide +kernel))
  have hsecond : TagReadable linux cacheOf
      (ManifestWorld.next linux parseLetters String.length cacheOf cuttingComputer
        (.refresh (answering lettered 2))).fs :=
    tagReadable_of (.inl (by decide +kernel))
  have run : Run (ManifestStep linux parseLetters String.length cacheOf lettered) cuttingComputer
      [.refresh (answering lettered 2), .refresh (answering lettered 2)] cutAndWritten :=
    Run.of_enabled ⟨⟨answers_answering _ _, hfirst⟩, ⟨answers_answering _ _, hsecond⟩, trivial⟩
  have readable : TagReadable linux cacheOf cutAndWritten.fs :=
    tagReadable_of (.inr (by decide +kernel))
  refine ⟨outcome, hconfirmed, houtcome, ?_⟩
  refine (refresh_returns_current (by decide +kernel) run ⟨by decide +kernel, by decide +kernel⟩
    readable (answers_answering _ _) houtcome).resolve_right ?_
  -- the server answers
  rintro ⟨⟨header, hheader⟩, -⟩
  cases header with
  | none => cases hheader
  | some tag =>
      rw [answering] at hheader
      split_ifs at hheader

end Example

end Savr
