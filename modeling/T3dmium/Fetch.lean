import T3dmium.PyValue
import T3dmium.Scripts

/-! `tools/fetch.py`: downloads into a cache, and what is unpacked from it. A command can
be killed between any two writes, and the next one starts from what is left. -/
namespace T3dmium.Fetch

inductive Exc
  | keyError
  | valueError
  | indexError
  | osError
  | tarError
  /-- `die`, by its message -/
  | mismatch
  | downloadMissing
  | notVerified
  deriving DecidableEq

/-- A section of `downloads.ini`, its options expanded. -/
structure Section where
  name : String
  options : List (String × String)

def Section.item (sec : Section) (key : String) : Except Exc String :=
  match sec.options.lookup key with
  | some value => .ok value
  | none => .error .keyError

/-- A file of an archive. -/
structure Member where
  name : String
  data : Bytes

/-- Where `unpack` writes below the build directory. -/
inductive Place
  | copied (outputPath : String)
  | extracted (outputPath member : String)
  deriving DecidableEq

structure Disk where
  /-- `DOWNLOAD_CACHE`, by file name -/
  cache : String → Option Bytes
  build : Place → Option Bytes

/-- What becomes of a request: it fails, or so much of a body is read and written before
the end or an exception. -/
inductive Transfer
  | refused (e : Exc)
  | served (body : Bytes) (broken : Option Exc)

/-- What the tool reads with the standard library. -/
structure Tools where
  /-- `hexdigest` of the whole content -/
  sha256 : Bytes → String
  /-- `none` where it raises -/
  int : String → Option ℤ
  /-- the members of an archive, and whether it can be read to its end; only regular files under
  plain names: links and names such as `./a`, which stand for other places, are left out -/
  tar : Bytes → List Member × Bool

abbrev FetchScript (α : Type) := Script Disk Exc α

def readCache (file : String) : FetchScript (Option Bytes) :=
  .statement fun d => (.ok (d.cache file), d)

def setCache (file : String) (content : Option Bytes) : FetchScript Unit :=
  .statement fun d => (.ok (), { d with cache := Function.update d.cache file content })

def setBuild (place : Place) (content : Bytes) : FetchScript Unit :=
  .statement fun d => (.ok (), { d with build := Function.update d.build place (some content) })

/-- The rest of a file that has `written` so far, one byte after the other. -/
def write (put : Bytes → FetchScript Unit) : Bytes → Bytes → FetchScript Unit
  | _, [] => pure ()
  | written, b :: rest => do
    put (written ++ [b])
    write put (written ++ [b]) rest

/-- `open(…, "wb")` and a whole content. -/
def writeFile (put : Bytes → FetchScript Unit) (content : Bytes) : FetchScript Unit := do
  put []
  write put [] content

section
variable (tools : Tools)

/-! `cmd_retrieve` -/

/-- `target.exists() and _sha256(target) == item["sha256"]` -/
def cachedAndVerified (sec : Section) : Option Bytes → Except Exc Bool
  | none => .ok false
  | some content => do .ok (tools.sha256 content == (← sec.item "sha256"))

def download (sec : Section) (target : String) : Transfer → FetchScript Unit
  | .refused e => .raise e
  | .served body broken => do
    writeFile (fun content => setCache target (some content)) body
    .ofExcept (match broken with
      | some e => .error e
      | none => .ok ())
    let written ← readCache target
    let pin ← .ofExcept (sec.item "sha256")
    if tools.sha256 (written.getD []) = pin then pure ()
    else do
      setCache target none
      .raise .mismatch

def retrieveItem (sec : Section) (transfer : Transfer) : FetchScript Unit := do
  let target ← .ofExcept (sec.item "download_filename")
  let cached ← readCache target
  let verified ← .ofExcept (cachedAndVerified tools sec cached)
  if verified then pure ()
  else do
    let _ ← .ofExcept (sec.item "url")
    download tools sec target transfer

/-- `transfers i` is for the section at position `i`. -/
def retrieve (transfers : ℕ → Transfer) : ℕ → List Section → FetchScript Unit
  | _, [] => pure ()
  | i, sec :: sections => do
    retrieveItem tools sec (transfers i)
    retrieve transfers (i + 1) sections

/-! `cmd_unpack` -/

/-- `name.split("/", maxsplit)` -/
def splitSlash : ℕ → List Char → List (List Char)
  | 0, cs => [cs]
  | k + 1, cs =>
    match cs.span (· != '/') with
    | (head, []) => [head]
    | (head, _ :: rest) => head :: splitSlash k rest

/-- What `_strip_members` makes of a name; `none` where it skips the member. A negative
number splits everywhere and counts from the end. -/
def stripName (strip : ℤ) (name : String) : Except Exc (Option String) :=
  let parts := splitSlash (if strip < 0 then name.toList.length else strip.toNat) name.toList
  if parts.length ≤ strip then .ok none
  else
    match parts[(if strip < 0 then strip + parts.length else strip).toNat]? with
    | some part => if strip < 0 ∧ strip + parts.length < 0 then .error .indexError
        else .ok (some (.ofList part))
    | none => .error .indexError

/-- The name a member is extracted under. -/
def memberName (strip : ℤ) (name : String) : Except Exc (Option String) :=
  if strip = 0 then .ok (some name) else stripName strip name

def extractAll (outputPath : String) (strip : ℤ) : List Member → FetchScript Unit
  | [] => pure ()
  | m :: members => do
    let name ← .ofExcept (memberName strip m.name)
    match name with
    | none => extractAll outputPath strip members
    | some name => do
      writeFile (setBuild (.extracted outputPath name)) m.data
      extractAll outputPath strip members

/-- `getmembers` reads to the end of the archive first, `extractall` as it goes. -/
def extract (outputPath : String) (strip : ℤ) (members : List Member) (whole : Bool) :
    FetchScript Unit :=
  if strip = 0 then do
    extractAll outputPath strip members
    if whole then pure () else .raise .tarError
  else if whole then extractAll outputPath strip members
  else .raise .tarError

def Section.strip (sec : Section) : Except Exc ℤ :=
  match sec.options.lookup "strip_leading_dirs" with
  | none => .ok 0
  | some s =>
    match tools.int s with
    | some strip => .ok strip
    | none => .error .valueError

def Section.isFile (sec : Section) : Bool := (sec.options.lookup "type").getD "archive" = "file"

def unpackItem (sec : Section) : FetchScript Unit := do
  let target ← .ofExcept (sec.item "download_filename")
  let cached ← readCache target
  match cached with
  | none => .raise .downloadMissing
  | some content => do
    let pin ← .ofExcept (sec.item "sha256")
    if tools.sha256 content ≠ pin then .raise .notVerified
    else do
      let outputPath ← .ofExcept (sec.item "output_path")
      if sec.isFile then do
        let content ← readCache target
        writeFile (setBuild (.copied outputPath)) (content.getD [])
      else do
        let strip ← .ofExcept (sec.strip tools)
        let content ← readCache target
        let archive := tools.tar (content.getD [])
        extract outputPath strip archive.1 archive.2

def unpack : List Section → FetchScript Unit
  | [] => pure ()
  | sec :: sections => do
    unpackItem tools sec
    unpack sections

/-! Runs -/

inductive Command
  | retrieve (sections : List Section) (transfers : ℕ → Transfer)
  | unpack (sections : List Section)

def Command.script : Command → FetchScript Unit
  | .retrieve sections transfers => Fetch.retrieve tools transfers 0 sections
  | .unpack sections => Fetch.unpack tools sections

/-- Each command goes through, or is killed after so many statements. -/
def runCommands (commands : List (Command × Option ℕ)) (d : Disk) : Disk :=
  commands.foldl (fun d c => match c.2 with
    | none => ((c.1.script tools).run d).2
    | some n => (c.1.script tools).cut n d) d

end

/-! What may be found in the build directory -/

section
variable (tools : Tools)

/-- From `archive`, `sec` puts `content` at `place`. -/
inductive Unpacks (sec : Section) (archive : Bytes) : Place → Bytes → Prop
  | copied {outputPath : String} (hpath : sec.item "output_path" = .ok outputPath)
      (hfile : sec.isFile = true) : Unpacks sec archive (.copied outputPath) archive
  | extracted {outputPath name : String} {strip : ℤ} {m : Member}
      (hpath : sec.item "output_path" = .ok outputPath) (hfile : sec.isFile = false)
      (hstrip : sec.strip tools = .ok strip) (hm : m ∈ (tools.tar archive).1)
      (hname : memberName strip m.name = .ok (some name)) :
      Unpacks sec archive (.extracted outputPath name) m.data

/-- `content` comes to `place` from an archive that `sec` pins. -/
def Pinned (sec : Section) (place : Place) (content : Bytes) : Prop :=
  ∃ archive, sec.item "sha256" = .ok (tools.sha256 archive) ∧ Unpacks tools sec archive place content

/-- Nothing has been placed since `d` but what a section pins, or the part of it that has
been written. -/
def Placed (sections : List Section) (d d' : Disk) : Prop :=
  ∀ place content, d'.build place = some content → d.build place = some content ∨
    ∃ sec ∈ sections, ∃ whole, Pinned tools sec place whole ∧ content <+: whole

/-- What is at `place` is whole. -/
def Filled (sections : List Section) (d : Disk) (place : Place) : Prop :=
  ∃ sec ∈ sections, ∃ content, d.build place = some content ∧ Pinned tools sec place content

/-- What an `unpack` that started at `d` has done up to `d'`. -/
structure Unpacked (sections : List Section) (d d' : Disk) : Prop where
  cache : d'.cache = d.cache
  placed : Placed tools sections d d'

/-! What is in the cache -/

/-- The file of the section is there and has the pinned digest. -/
def Verified (d : Disk) (sec : Section) : Prop :=
  ∃ file content, sec.item "download_filename" = .ok file ∧ d.cache file = some content ∧
    sec.item "sha256" = .ok (tools.sha256 content)

/-- Each place that the cached file of the section is for is whole. -/
def FilledFrom (sections : List Section) (sec : Section) (d d' : Disk) : Prop :=
  ∀ file archive, sec.item "download_filename" = .ok file → d.cache file = some archive →
    ∀ place content, Unpacks tools sec archive place content → Filled tools sections d' place

/-- `unpack` did not stop at a file that `retrieve` should have left. -/
def Accepted (r : Except Exc Unit) : Prop := r ≠ .error .downloadMissing ∧ r ≠ .error .notVerified

/-- `d'` differs from `d` in the cached files of the sections alone. -/
structure FilesOnly (sections : List Section) (d d' : Disk) : Prop where
  build : d'.build = d.build
  cache : ∀ file, (∀ sec ∈ sections, sec.item "download_filename" ≠ .ok file) → d'.cache file = d.cache file

/-- The whole of what the section pins is served. -/
def Serves (sec : Section) (transfer : Transfer) : Prop :=
  (∃ file, sec.item "download_filename" = .ok file) ∧ (∃ url, sec.item "url" = .ok url) ∧
    ∃ body, transfer = .served body none ∧ sec.item "sha256" = .ok (tools.sha256 body)

/-- Sections that share a file pin the same digest. -/
def PinsAgree (sections : List Section) : Prop :=
  ∀ sec ∈ sections, ∀ sec' ∈ sections, sec.item "download_filename" = sec'.item "download_filename" →
    sec.item "sha256" = sec'.item "sha256"

end

section
variable {tools : Tools} {sections : List Section} {sec : Section} {d d' t : Disk}

lemma item_error {key : String} {e : Exc} (h : sec.item key = .error e) : e = .keyError := by
  rw [Section.item] at h
  split at h <;> cases h
  rfl

lemma strip_error {e : Exc} (h : sec.strip tools = .error e) : e = .valueError := by
  rw [Section.strip] at h
  split at h
  · cases h
  · split at h <;> cases h
    rfl

lemma memberName_error {strip : ℤ} {name : String} {e : Exc} (h : memberName strip name = .error e) :
    e = .indexError := by
  rw [memberName] at h
  split at h
  · cases h
  · rw [stripName] at h
    generalize splitSlash (if strip < 0 then name.toList.length else strip.toNat) name.toList = parts at h
    grind

lemma accepted_ok {u : Unit} : Accepted (.ok u) := ⟨nofun, nofun⟩

/-! Unpacking -/

lemma Placed.refl : Placed tools sections d d := fun _ _ h => Or.inl h

lemma Placed.trans {d'' : Disk} (h : Placed tools sections d d') (h' : Placed tools sections d' d'') :
    Placed tools sections d d'' := by
  intro place content hc
  rcases h' place content hc with hold | hnew
  · exact h place content hold
  · exact Or.inr hnew

lemma Placed.mono {sections' : List Section} (h : Placed tools sections d d')
    (hsub : ∀ sec ∈ sections, sec ∈ sections') : Placed tools sections' d d' :=
  fun place content hc => (h place content hc).imp_right fun ⟨sec, hsec, hp⟩ => ⟨sec, hsub sec hsec, hp⟩

lemma Unpacked.refl : Unpacked tools sections d d := ⟨rfl, .refl⟩

/-- The disk with `content` at `place`. -/
def Disk.put (d : Disk) (place : Place) (content : Bytes) : Disk :=
  { d with build := Function.update d.build place (some content) }

lemma Disk.put_put {place : Place} (content : Bytes) {content' : Bytes} :
    (d.put place content).put place content' = d.put place content' := by
  simp only [Disk.put, Function.update_idem]

lemma Unpacked.put {place : Place} {content whole : Bytes} (h : Unpacked tools sections d t)
    (hsec : sec ∈ sections) (hp : Pinned tools sec place whole) (hpart : content <+: whole) :
    Unpacked tools sections d (t.put place content) := by
  refine ⟨h.cache, fun place' content' hc => ?_⟩
  change Function.update t.build place (some content) place' = some content' at hc
  by_cases hplace : place' = place
  · subst hplace
    rw [Function.update_self] at hc
    cases hc
    exact Or.inr ⟨sec, hsec, whole, hp, hpart⟩
  · rw [Function.update_of_ne hplace] at hc
    exact h.placed place' content' hc

lemma filled_put {place : Place} {content : Bytes} (hsec : sec ∈ sections)
    (hp : Pinned tools sec place content) : Filled tools sections (t.put place content) place :=
  ⟨sec, hsec, content, Function.update_self .., hp⟩

lemma Filled.put {place place' : Place} {content : Bytes} (h : Filled tools sections t place')
    (hsec : sec ∈ sections) (hp : Pinned tools sec place content) :
    Filled tools sections (t.put place content) place' := by
  by_cases hplace : place' = place
  · subst hplace
    exact filled_put hsec hp
  · obtain ⟨sec', hsec', content', hc, hp'⟩ := h
    exact ⟨sec', hsec', content', (Function.update_of_ne hplace ..).trans hc, hp'⟩

/-- While a pinned file is written, the part of it that is there is pinned. -/
lemma spec_writeFile {place : Place} {content : Bytes} (hsec : sec ∈ sections)
    (hp : Pinned tools sec place content) (h : Unpacked tools sections d t) :
    Script.Spec t (writeFile (setBuild place) content) (Unpacked tools sections d)
      fun r t' => r = .ok () ∧ t' = t.put place content := by
  have hwrite : ∀ rest written, content = written ++ rest →
      Script.Spec (t.put place written) (write (setBuild place) written rest) (Unpacked tools sections d)
        fun r t' => r = .ok () ∧ t' = t.put place content := by
    intro rest
    induction rest with
    | nil =>
      intro written hcontent
      obtain rfl : content = written := by simpa using hcontent
      exact Script.spec_pure (h.put hsec hp List.prefix_rfl) ⟨rfl, rfl⟩
    | cons b rest ih =>
      intro written hcontent
      have hnext := ih (written ++ [b]) (by simpa using hcontent)
      rw [← Disk.put_put written] at hnext
      exact Script.spec_statement_bind rfl (h.put hsec hp ⟨b :: rest, hcontent.symm⟩) hnext
  exact Script.spec_statement_bind rfl h (hwrite content [] rfl)

lemma spec_extractAll {outputPath : String} {strip : ℤ} {archive : Bytes} (hsec : sec ∈ sections)
    (hpin : sec.item "sha256" = .ok (tools.sha256 archive))
    (hpath : sec.item "output_path" = .ok outputPath) (hfile : sec.isFile = false)
    (hstrip : sec.strip tools = .ok strip) {members : List Member}
    (hmembers : ∀ m ∈ members, m ∈ (tools.tar archive).1) (h : Unpacked tools sections d t) :
    Script.Spec t (extractAll outputPath strip members) (Unpacked tools sections d) fun r t' =>
      Unpacked tools sections d t' ∧ Accepted r ∧
        (∀ place, Filled tools sections t place → Filled tools sections t' place) ∧
        (r = .ok () → ∀ m ∈ members, ∀ name, memberName strip m.name = .ok (some name) →
          Filled tools sections t' (.extracted outputPath name)) := by
  induction members generalizing t with
  | nil => exact Script.spec_pure h ⟨h, accepted_ok, fun _ hf => hf, nofun⟩
  | cons m members ih =>
    have hrest : ∀ m ∈ members, m ∈ (tools.tar archive).1 :=
      fun m hm => hmembers m (List.mem_cons_of_mem _ hm)
    refine Script.spec_ofExcept_bind h (fun name hname => ?_) fun e he => ?_
    · cases name with
      | none =>
        refine (ih hrest h).imp (fun _ h => h) ?_
        rintro r t' ⟨hu, hacc, hkept, hall⟩
        refine ⟨hu, hacc, hkept, fun hr => List.forall_mem_cons.mpr ⟨fun name hname' => ?_, hall hr⟩⟩
        rw [hname] at hname'
        cases hname'
      | some name =>
        have hp : Pinned tools sec (.extracted outputPath name) m.data :=
          ⟨archive, hpin, .extracted hpath hfile hstrip (hmembers m List.mem_cons_self) hname⟩
        refine (spec_writeFile hsec hp h).bind ?_ (by rintro e t' ⟨he, -⟩; cases he)
        rintro _ t' ⟨-, rfl⟩
        refine (ih hrest (h.put hsec hp List.prefix_rfl)).imp (fun _ h => h) ?_
        rintro r t'' ⟨hu, hacc, hkept, hall⟩
        refine ⟨hu, hacc, fun place hf => hkept place (hf.put hsec hp), fun hr => ?_⟩
        refine List.forall_mem_cons.mpr ⟨fun name' hname' => ?_, hall hr⟩
        rw [hname] at hname'
        cases hname'
        exact hkept _ (filled_put hsec hp)
    · cases memberName_error he
      exact ⟨h, ⟨nofun, nofun⟩, fun _ hf => hf, nofun⟩

lemma spec_extract {outputPath : String} {strip : ℤ} {archive : Bytes} (hsec : sec ∈ sections)
    (hpin : sec.item "sha256" = .ok (tools.sha256 archive))
    (hpath : sec.item "output_path" = .ok outputPath) (hfile : sec.isFile = false)
    (hstrip : sec.strip tools = .ok strip) (h : Unpacked tools sections d t) :
    Script.Spec t (extract outputPath strip (tools.tar archive).1 (tools.tar archive).2)
      (Unpacked tools sections d) fun r t' => Unpacked tools sections d t' ∧ Accepted r ∧
        (∀ place, Filled tools sections t place → Filled tools sections t' place) ∧
        (r = .ok () → ∀ place content, Unpacks tools sec archive place content →
          Filled tools sections t' place) := by
  have hall := spec_extractAll hsec hpin hpath hfile hstrip (fun m (hm : m ∈ (tools.tar archive).1) => hm) h
  have hfilled : ∀ t' : Disk, (∀ m ∈ (tools.tar archive).1, ∀ name,
      memberName strip m.name = .ok (some name) → Filled tools sections t' (.extracted outputPath name)) →
      ∀ place content, Unpacks tools sec archive place content → Filled tools sections t' place := by
    rintro t' hm _ _ (⟨hpath', hfile'⟩ | ⟨hpath', hfile', hstrip', hmem, hname⟩)
    · rw [hfile] at hfile'
      cases hfile'
    · rw [hpath] at hpath'
      rw [hstrip] at hstrip'
      cases hpath'
      cases hstrip'
      exact hm _ hmem _ hname
  rw [extract]
  split_ifs with hzero hwhole hwhole
  · refine hall.bind ?_ fun e t' ⟨hu, hacc, hkept, _⟩ => ⟨hu, hacc, hkept, nofun⟩
    rintro _ t' ⟨hu, -, hkept, hm⟩
    exact Script.spec_pure hu ⟨hu, accepted_ok, hkept, fun _ => hfilled t' (hm rfl)⟩
  · refine hall.bind ?_ fun e t' ⟨hu, hacc, hkept, _⟩ => ⟨hu, hacc, hkept, nofun⟩
    rintro _ t' ⟨hu, -, hkept, -⟩
    exact Script.spec_raise hu ⟨hu, ⟨nofun, nofun⟩, hkept, nofun⟩
  · exact hall.imp (fun _ h => h) fun r t' ⟨hu, hacc, hkept, hm⟩ =>
      ⟨hu, hacc, hkept, fun hr => hfilled t' (hm hr)⟩
  · exact Script.spec_raise h ⟨h, ⟨nofun, nofun⟩, fun _ hf => hf, nofun⟩

/-- Unpacking places only what its section pins; it goes through only with the pinned file
in the cache, and then it fills each place of that file. -/
lemma spec_unpackItem (hsec : sec ∈ sections) (h : Unpacked tools sections d t) :
    Script.Spec t (unpackItem tools sec) (Unpacked tools sections d) fun r t' =>
      Unpacked tools sections d t' ∧ (Verified tools d sec → Accepted r) ∧
        (∀ place, Filled tools sections t place → Filled tools sections t' place) ∧
        (r = .ok () → Verified tools d sec ∧ FilledFrom tools sections sec d t') := by
  refine Script.spec_ofExcept_bind h (fun target htarget => ?_) fun e he => ?_
  · refine Script.spec_statement_bind rfl h ?_
    rw [h.cache]
    cases hcached : d.cache target with
    | none =>
      refine Script.spec_raise h ⟨h, ?_, fun _ hf => hf, nofun⟩
      rintro ⟨file, content, hfile, hcontent, -⟩
      rw [htarget] at hfile
      cases hfile
      rw [hcached] at hcontent
      cases hcontent
    | some content =>
      refine Script.spec_ofExcept_bind h (fun pin hpin => ?_) fun e he => ?_
      · by_cases hsha : tools.sha256 content = pin
        · subst hsha
          have hverified : Verified tools d sec := ⟨target, content, htarget, hcached, hpin⟩
          have hfrom : ∀ t' : Disk, (∀ place c, Unpacks tools sec content place c →
              Filled tools sections t' place) → FilledFrom tools sections sec d t' := by
            intro t' hall file archive hfile harchive
            rw [htarget] at hfile
            cases hfile
            rw [hcached] at harchive
            cases harchive
            exact hall
          rw [if_neg (not_not.mpr rfl)]
          refine Script.spec_ofExcept_bind h (fun outputPath hpath => ?_) fun e he => ?_
          · cases hfile : sec.isFile with
            | true =>
              have hp : Pinned tools sec (.copied outputPath) content := ⟨content, hpin, .copied hpath hfile⟩
              rw [if_pos rfl]
              refine Script.spec_statement_bind rfl h ?_
              rw [h.cache, hcached]
              refine (spec_writeFile hsec hp h).imp (fun _ h => h) ?_
              rintro r t' ⟨rfl, rfl⟩
              refine ⟨h.put hsec hp List.prefix_rfl, fun _ => accepted_ok,
                fun place hf => hf.put hsec hp, fun _ => ⟨hverified, hfrom _ ?_⟩⟩
              rintro _ _ (⟨hpath', -⟩ | ⟨-, hfile', -⟩)
              · rw [hpath] at hpath'
                cases hpath'
                exact filled_put hsec hp
              · rw [hfile] at hfile'
                cases hfile'
            | false =>
              rw [if_neg Bool.false_ne_true]
              refine Script.spec_ofExcept_bind h (fun strip hstrip => ?_) fun e he => ?_
              · refine Script.spec_statement_bind rfl h ?_
                rw [h.cache, hcached]
                exact (spec_extract hsec hpin hpath hfile hstrip h).imp (fun _ h => h)
                  fun r t' ⟨hu, hacc, hkept, hall⟩ =>
                    ⟨hu, fun _ => hacc, hkept, fun hr => ⟨hverified, hfrom t' (hall hr)⟩⟩
              · cases strip_error he
                exact ⟨h, fun _ => ⟨nofun, nofun⟩, fun _ hf => hf, nofun⟩
          · cases item_error he
            exact ⟨h, fun _ => ⟨nofun, nofun⟩, fun _ hf => hf, nofun⟩
        · rw [if_pos hsha]
          refine Script.spec_raise h ⟨h, ?_, fun _ hf => hf, nofun⟩
          rintro ⟨file, content', hfile, hcontent, hpin'⟩
          rw [htarget] at hfile
          cases hfile
          rw [hcached] at hcontent
          cases hcontent
          rw [hpin] at hpin'
          exact (hsha (Except.ok.inj hpin').symm).elim
      · cases item_error he
        exact ⟨h, fun _ => ⟨nofun, nofun⟩, fun _ hf => hf, nofun⟩
  · cases item_error he
    exact ⟨h, fun _ => ⟨nofun, nofun⟩, fun _ hf => hf, nofun⟩

lemma spec_unpack {rest : List Section} (hrest : ∀ sec ∈ rest, sec ∈ sections)
    (h : Unpacked tools sections d t) :
    Script.Spec t (unpack tools rest) (Unpacked tools sections d) fun r t' =>
      Unpacked tools sections d t' ∧ ((∀ sec ∈ rest, Verified tools d sec) → Accepted r) ∧
        (∀ place, Filled tools sections t place → Filled tools sections t' place) ∧
        (r = .ok () → ∀ sec ∈ rest, Verified tools d sec ∧ FilledFrom tools sections sec d t') := by
  induction rest generalizing t with
  | nil => exact Script.spec_pure h ⟨h, fun _ => accepted_ok, fun _ hf => hf, nofun⟩
  | cons sec rest ih =>
    refine (spec_unpackItem (hrest sec List.mem_cons_self) h).bind ?_ ?_
    · rintro _ t' ⟨hu, -, hkept, hitem⟩
      obtain ⟨hverified, hfrom⟩ := hitem rfl
      refine (ih (fun s hs => hrest s (List.mem_cons_of_mem _ hs)) hu).imp (fun _ h => h) ?_
      rintro r t'' ⟨hu', hacc, hkept', hall⟩
      refine ⟨hu', fun hv => hacc fun s hs => hv s (List.mem_cons_of_mem _ hs),
        fun place hf => hkept' place (hkept place hf), fun hr => ?_⟩
      refine List.forall_mem_cons.mpr ⟨⟨hverified, ?_⟩, hall hr⟩
      exact fun file archive hfile harchive place content hp =>
        hkept' place (hfrom file archive hfile harchive place content hp)
    · rintro e t' ⟨hu, hacc, hkept, -⟩
      exact ⟨hu, fun hv => hacc (hv sec List.mem_cons_self), hkept, nofun⟩

/-! Retrieving -/

lemma FilesOnly.refl : FilesOnly sections d d := ⟨rfl, fun _ _ => rfl⟩

lemma FilesOnly.mono {sections' : List Section} (h : FilesOnly sections d d')
    (hsub : ∀ sec ∈ sections, sec ∈ sections') : FilesOnly sections' d d' :=
  ⟨h.build, fun file hfile => h.cache file fun sec hsec => hfile sec (hsub sec hsec)⟩

lemma FilesOnly.trans (h : FilesOnly sections d t) (h' : FilesOnly sections t d') :
    FilesOnly sections d d' :=
  ⟨h'.build.trans h.build, fun file hfile => (h'.cache file hfile).trans (h.cache file hfile)⟩

lemma FilesOnly.of_update {target : String} {content : Option Bytes}
    (htarget : sec.item "download_filename" = .ok target) (hbuild : d'.build = d.build)
    (hcache : d'.cache = Function.update d.cache target content) : FilesOnly [sec] d d' := by
  refine ⟨hbuild, fun file hfile => ?_⟩
  rw [hcache, Function.update_of_ne]
  rintro rfl
  exact hfile sec List.mem_cons_self htarget

lemma spec_writeCache {target : String} {content : Bytes}
    (htarget : sec.item "download_filename" = .ok target) :
    Script.Spec d (writeFile (fun c => setCache target (some c)) content) (FilesOnly [sec] d)
      fun r t => r = .ok () ∧ t.build = d.build ∧
        t.cache = Function.update d.cache target (some content) := by
  have hwrite : ∀ rest written, content = written ++ rest → ∀ t : Disk, t.build = d.build →
      t.cache = Function.update d.cache target (some written) →
      Script.Spec t (write (fun c => setCache target (some c)) written rest) (FilesOnly [sec] d)
        fun r t => r = .ok () ∧ t.build = d.build ∧
          t.cache = Function.update d.cache target (some content) := by
    intro rest
    induction rest with
    | nil =>
      intro written hcontent t hbuild hcache
      obtain rfl : content = written := by simpa using hcontent
      exact Script.spec_pure (.of_update htarget hbuild hcache) ⟨rfl, hbuild, hcache⟩
    | cons b rest ih =>
      intro written hcontent t hbuild hcache
      refine Script.spec_statement_bind rfl (.of_update htarget hbuild hcache)
        (ih (written ++ [b]) (by simpa using hcontent) _ hbuild ?_)
      rw [hcache, Function.update_idem]
  exact Script.spec_statement_bind rfl .refl (hwrite content [] rfl _ rfl rfl)

/-- A download ends well only if the pinned content has been written, and does if it is
served whole. -/
lemma spec_download {target : String} {transfer : Transfer}
    (htarget : sec.item "download_filename" = .ok target) :
    Script.Spec d (download tools sec target transfer) (FilesOnly [sec] d) fun r t =>
      FilesOnly [sec] d t ∧ (r = .ok () → Verified tools t sec) ∧
        ∀ body, transfer = .served body none → sec.item "sha256" = .ok (tools.sha256 body) → r = .ok () := by
  cases transfer with
  | refused e => exact Script.spec_raise .refl ⟨.refl, nofun, nofun⟩
  | served body broken =>
    refine (spec_writeCache htarget).bind ?_ (by rintro e t ⟨he, -⟩; cases he)
    rintro _ t ⟨-, hbuild, hcache⟩
    have hfile : FilesOnly [sec] d t := .of_update htarget hbuild hcache
    have hbody : t.cache target = some body := by rw [hcache, Function.update_self]
    cases broken with
    | some e => exact Script.spec_ofExcept_bind hfile nofun fun e' _ => ⟨hfile, nofun, nofun⟩
    | none =>
      refine Script.spec_ofExcept_bind hfile (fun _ _ => ?_) nofun
      refine Script.spec_statement_bind rfl hfile ?_
      refine Script.spec_ofExcept_bind hfile (fun pin hpin => ?_) fun e he => ⟨hfile, nofun, ?_⟩
      · rw [hbody, Option.getD_some]
        by_cases hsha : tools.sha256 body = pin
        · subst hsha
          rw [if_pos rfl]
          exact Script.spec_pure hfile ⟨hfile, fun _ => ⟨target, body, htarget, hbody, hpin⟩, fun _ _ _ => rfl⟩
        · rw [if_neg hsha]
          have hgone : FilesOnly [sec] d { t with cache := Function.update t.cache target none } := by
            have hempty : Function.update t.cache target none = Function.update d.cache target none := by
              rw [hcache, Function.update_idem]
            exact .of_update htarget hbuild hempty
          refine Script.spec_statement_bind rfl hfile (Script.spec_raise hgone ⟨hgone, nofun, ?_⟩)
          intro body' hserved hpin'
          cases hserved
          rw [hpin] at hpin'
          exact (hsha (Except.ok.inj hpin').symm).elim
      · intro body' hserved hpin'
        rw [he] at hpin'
        cases hpin'

/-- The file is left with the pinned content, or the run does not go through; a pinned
file is not fetched again. -/
lemma spec_retrieveItem {transfer : Transfer} :
    Script.Spec d (retrieveItem tools sec transfer) (FilesOnly [sec] d) fun r t =>
      FilesOnly [sec] d t ∧ (r = .ok () → Verified tools t sec) ∧
        (Serves tools sec transfer → r = .ok ()) ∧ (Verified tools d sec → r = .ok () ∧ t = d) := by
  refine Script.spec_ofExcept_bind .refl (fun target htarget => ?_) fun e he => ⟨.refl, nofun, ?_, ?_⟩
  · refine Script.spec_statement_bind rfl .refl ?_
    refine Script.spec_ofExcept_bind .refl (fun verified hverified => ?_) fun e he => ⟨.refl, nofun, ?_, ?_⟩
    · have hiff : verified = true ↔ Verified tools d sec := by
        cases hcached : d.cache target with
        | none =>
          rw [hcached] at hverified
          cases hverified
          refine ⟨nofun, ?_⟩
          rintro ⟨file, content, hfile, hcontent, -⟩
          rw [htarget] at hfile
          cases hfile
          rw [hcached] at hcontent
          cases hcontent
        | some content =>
          rw [hcached] at hverified
          obtain ⟨pin, hpin, hsha⟩ := bind_eq_ok.mp hverified
          have hsha : (tools.sha256 content == pin) = verified := by simpa using hsha
          rw [← hsha, beq_iff_eq]
          refine ⟨fun heq => ⟨target, content, htarget, hcached, heq ▸ hpin⟩, ?_⟩
          rintro ⟨file, content', hfile, hcontent, hpin'⟩
          rw [htarget] at hfile
          cases hfile
          rw [hcached] at hcontent
          cases hcontent
          rw [hpin] at hpin'
          exact (Except.ok.inj hpin').symm
      cases verified with
      | true =>
        rw [if_pos rfl]
        exact Script.spec_pure .refl ⟨.refl, fun _ => hiff.mp rfl, fun _ => rfl, fun _ => ⟨rfl, rfl⟩⟩
      | false =>
        have hnot : ¬ Verified tools d sec := fun hv => Bool.false_ne_true (hiff.mpr hv)
        rw [if_neg Bool.false_ne_true]
        refine Script.spec_ofExcept_bind .refl (fun _ _ => ?_) fun e he => ⟨.refl, nofun, ?_, ?_⟩
        · refine (spec_download htarget).imp (fun _ h => h) ?_
          rintro r t ⟨hfile, hok, hserved⟩
          refine ⟨hfile, hok, ?_, fun hv => (hnot hv).elim⟩
          rintro ⟨-, -, body, hbody, hpin⟩
          exact hserved body hbody hpin
        · rintro ⟨-, ⟨url, hurl⟩, -⟩
          rw [he] at hurl
          cases hurl
        · exact fun hv => (hnot hv).elim
    · rintro ⟨-, -, body, -, hpin⟩
      cases hcached : d.cache target with
      | none =>
        rw [hcached] at he
        cases he
      | some content =>
        rw [hcached, cachedAndVerified, hpin] at he
        cases he
    · rintro ⟨file, content, -, -, hpin⟩
      cases hcached : d.cache target with
      | none =>
        rw [hcached] at he
        cases he
      | some content =>
        rw [hcached, cachedAndVerified, hpin] at he
        cases he
  · rintro ⟨⟨file, hfile⟩, -⟩
    rw [he] at hfile
    cases hfile
  · rintro ⟨file, content, hfile, -⟩
    rw [he] at hfile
    cases hfile

/-- Of the sections that share a file, the last has the word. -/
lemma spec_retrieve {transfers : ℕ → Transfer} {i : ℕ} :
    Script.Spec d (retrieve tools transfers i sections) (FilesOnly sections d) fun r t =>
      FilesOnly sections d t ∧
        (r = .ok () → ∀ sec ∈ sections, ∃ sec' ∈ sections,
          sec'.item "download_filename" = sec.item "download_filename" ∧ Verified tools t sec') ∧
        ((∀ j sec, sections[j]? = some sec → Serves tools sec (transfers (i + j))) → r = .ok ()) ∧
        ((∀ sec ∈ sections, Verified tools d sec) → r = .ok () ∧ t = d) := by
  induction sections generalizing d i with
  | nil => exact Script.spec_pure .refl ⟨.refl, nofun, fun _ => rfl, fun _ => ⟨rfl, rfl⟩⟩
  | cons sec rest ih =>
    have hhead : ∀ s ∈ [sec], s ∈ sec :: rest := by simp
    refine (spec_retrieveItem.imp (fun t h => FilesOnly.mono h hhead) fun _ _ h => h).bind ?_ ?_
    · rintro _ t ⟨hfile, hverified, -, hsame⟩
      have hfile := FilesOnly.mono hfile hhead
      have hsub : ∀ s ∈ rest, s ∈ sec :: rest := fun s hs => List.mem_cons_of_mem _ hs
      refine (ih (d := t) (i := i + 1)).imp (fun t' h => hfile.trans (h.mono hsub)) ?_
      rintro r t' ⟨hfiles, hlast, hserved, hkept⟩
      refine ⟨hfile.trans (hfiles.mono hsub), fun hr => ?_, fun hall => hserved fun j s hs => ?_, fun hv => ?_⟩
      · have hlater : ∀ s ∈ rest, ∃ s' ∈ sec :: rest,
            s'.item "download_filename" = s.item "download_filename" ∧ Verified tools t' s' := by
          intro s hs
          obtain ⟨s', hs', hv⟩ := hlast hr s hs
          exact ⟨s', List.mem_cons_of_mem _ hs', hv⟩
        refine List.forall_mem_cons.mpr ⟨?_, hlater⟩
        by_cases hshared : ∃ s ∈ rest, s.item "download_filename" = sec.item "download_filename"
        · obtain ⟨s, hs, heq⟩ := hshared
          obtain ⟨s', hs', heq', hv⟩ := hlater s hs
          exact ⟨s', hs', heq'.trans heq, hv⟩
        · obtain ⟨file, content, hname, hcontent, hpin⟩ := hverified rfl
          refine ⟨sec, List.mem_cons_self, rfl, file, content, hname, ?_, hpin⟩
          rw [hfiles.cache file, hcontent]
          exact fun s hs heq => hshared ⟨s, hs, heq.trans hname.symm⟩
      · have hj := hall (j + 1) s hs
        rwa [← Nat.add_assoc, Nat.add_right_comm] at hj
      · obtain ⟨-, rfl⟩ := hsame (hv sec List.mem_cons_self)
        exact hkept fun s hs => hv s (hsub s hs)
    · rintro e t ⟨hfile, -, hserved, hsame⟩
      refine ⟨FilesOnly.mono hfile hhead, nofun, fun hall => hserved (hall 0 sec rfl), fun hv => ?_⟩
      exact hsame (hv sec List.mem_cons_self)

end

/-! Runs -/

section
variable (tools : Tools)

/-- The sections that a command places something of. -/
def Command.unpacked : Command → List Section
  | .retrieve _ _ => []
  | .unpack sections => sections

lemma placed_command (c : Command) (d : Disk) :
    Script.Spec d (c.script tools) (Placed tools c.unpacked d) fun _ t => Placed tools c.unpacked d t := by
  cases c with
  | retrieve sections transfers =>
    have hbuild : ∀ t, FilesOnly sections d t → Placed tools [] d t := by
      intro t ht place content hc
      rw [ht.build] at hc
      exact Or.inl hc
    exact spec_retrieve.imp hbuild fun _ t ht => hbuild t ht.1
  | unpack sections =>
    exact (spec_unpack (fun _ h => h) .refl).imp (fun _ h => h.placed) fun _ _ h => h.1.placed

/-- Whatever the network serves, and wherever the commands are killed: what a run finds new
in the build directory is pinned, or the part of a pinned file that had been written. -/
theorem placed_pinned (commands : List (Command × Option ℕ)) (d : Disk) :
    Placed tools (commands.flatMap fun c => c.1.unpacked) d (runCommands tools commands d) := by
  induction commands generalizing d with
  | nil => exact .refl
  | cons c commands ih =>
    obtain ⟨hcut, hrun⟩ := placed_command tools c.1 d
    have hsub : ∀ sec ∈ c.1.unpacked, sec ∈ (c :: commands).flatMap fun c => c.1.unpacked :=
      fun sec hsec => List.mem_flatMap.mpr ⟨c, List.mem_cons_self, hsec⟩
    have hsub' : ∀ sec ∈ commands.flatMap fun c => c.1.unpacked,
        sec ∈ (c :: commands).flatMap fun c => c.1.unpacked := by
      intro sec hsec
      rw [List.flatMap_cons]
      exact List.mem_append_right _ hsec
    rw [runCommands, List.foldl_cons]
    cases c.2 with
    | none => exact (hrun.mono hsub).trans ((ih _).mono hsub')
    | some n => exact ((hcut n).mono hsub).trans ((ih _).mono hsub')

lemma pinsAgree_of_verified {sections : List Section} {d : Disk}
    (h : ∀ sec ∈ sections, Verified tools d sec) : PinsAgree sections := by
  intro sec hsec sec' hsec' hfile
  obtain ⟨file, content, hname, hcontent, hpin⟩ := h sec hsec
  obtain ⟨file', content', hname', hcontent', hpin'⟩ := h sec' hsec'
  rw [hname, hname'] at hfile
  cases hfile
  rw [hcontent] at hcontent'
  cases hcontent'
  rw [hpin, hpin']

/-- A `retrieve` that is served what the sections pin goes through, whatever an earlier one
left. One that goes through leaves every file as pinned if sections that share a file agree
on it, and only then; what it leaves is not fetched again, and `unpack` accepts it. -/
theorem retrieve_settles (sections : List Section) (transfers : ℕ → Transfer) (d : Disk) :
    ((∀ i sec, sections[i]? = some sec → Serves tools sec (transfers i)) →
      ((retrieve tools transfers 0 sections).run d).1 = .ok ()) ∧
    (((retrieve tools transfers 0 sections).run d).1 = .ok () →
      let d' := ((retrieve tools transfers 0 sections).run d).2
      ((∀ sec ∈ sections, Verified tools d' sec) ↔ PinsAgree sections) ∧
      (PinsAgree sections → Accepted ((unpack tools sections).run d').1 ∧
        ∀ transfers', (retrieve tools transfers' 0 sections).run d' = (.ok (), d'))) := by
  obtain ⟨-, -, hlast, hserved, -⟩ : Script.Spec d (retrieve tools transfers 0 sections) _ _ := spec_retrieve
  refine ⟨fun hall => hserved fun j sec hj => ?_, fun hok => ?_⟩
  · rw [Nat.zero_add]
    exact hall j sec hj
  · intro d'
    have hiff : (∀ sec ∈ sections, Verified tools d' sec) ↔ PinsAgree sections := by
      refine ⟨pinsAgree_of_verified tools, fun hagree sec hsec => ?_⟩
      obtain ⟨sec', hsec', hfile, file, content, hname, hcontent, hpin⟩ := hlast hok sec hsec
      exact ⟨file, content, hfile ▸ hname, hcontent, hagree sec' hsec' sec hsec hfile ▸ hpin⟩
    refine ⟨hiff, fun hagree => ⟨?_, fun transfers' => ?_⟩⟩
    · exact (spec_unpack (fun _ h => h) Unpacked.refl).2.2.1 (hiff.mpr hagree)
    · obtain ⟨-, -, -, -, hsame⟩ : Script.Spec d' (retrieve tools transfers' 0 sections) _ _ := spec_retrieve
      exact Prod.ext_iff.mpr (hsame (hiff.mpr hagree))

/-- An `unpack` that goes through had every pinned file in the cache, and leaves nothing
half-written at the places these are for, whatever was there before. -/
theorem unpack_fills (sections : List Section) (d : Disk)
    (h : ((unpack tools sections).run d).1 = .ok ()) :
    (∀ sec ∈ sections, Verified tools d sec) ∧
      ∀ sec ∈ sections, FilledFrom tools sections sec d ((unpack tools sections).run d).2 := by
  have hall := (spec_unpack (fun _ (hsec : _ ∈ sections) => hsec) Unpacked.refl).2.2.2.2 h
  exact ⟨fun sec hsec => (hall sec hsec).1, fun sec hsec => (hall sec hsec).2⟩

end

/-! A pinned list, a half-written copy of it, and a cache without it -/

def sampleTools : Tools where
  sha256 content :=
    if content = [97, 98, 99] then "ba7816bf8f01cfea414140de5dae2223b00361a396177a9cb410ff61f20015ad"
    else "e3b0c44298fc1c149afbf4c8996fb92427ae41e4649b934ca495991b7852b855"
  int s := s.toInt?
  tar _ := ([], false)

def sampleSection : Section where
  name := "ublock-filters"
  options := [("url", "https://lists.example/filters.txt"), ("download_filename", "filters.txt"),
    ("sha256", "ba7816bf8f01cfea414140de5dae2223b00361a396177a9cb410ff61f20015ad"),
    ("type", "file"), ("output_path", "filters/list.txt")]

def sampleDisk (cached : Bytes) : Disk where
  cache file := if file = "filters.txt" then some cached else none
  build place := if place = .copied "filters/list.txt" then some [97] else none

def sampleTransfers : ℕ → Transfer := fun _ => .served [97, 98, 99] none

theorem sample_retrieve_settles :
    Accepted ((unpack sampleTools [sampleSection]).run
        ((retrieve sampleTools sampleTransfers 0 [sampleSection]).run (sampleDisk [])).2).1 ∧
      Verified sampleTools
        ((retrieve sampleTools sampleTransfers 0 [sampleSection]).run (sampleDisk [])).2 sampleSection := by
  have hagree : PinsAgree [sampleSection] := by
    intro sec hsec sec' hsec' _
    rw [List.mem_singleton.mp hsec, List.mem_singleton.mp hsec']
  have hserves : Serves sampleTools sampleSection (.served [97, 98, 99] none) :=
    ⟨⟨_, rfl⟩, ⟨_, rfl⟩, _, rfl, rfl⟩
  obtain ⟨hgoes, hsettled⟩ := retrieve_settles sampleTools [sampleSection] sampleTransfers (sampleDisk [])
  have hok := hgoes fun i sec hi => by
    rw [List.mem_singleton.mp (List.mem_of_getElem? hi)]
    exact hserves
  obtain ⟨hiff, hrest⟩ := hsettled hok
  exact ⟨(hrest hagree).1, hiff.mpr hagree sampleSection List.mem_cons_self⟩

/-! An archive of two files below one directory, one of which has been extracted in part -/

def archiveTools : Tools where
  sha256 content :=
    if content = [116, 97, 114] then "90aebae315675cbf04612de4f7d5874850f48e0b8dd82becbeaa47ca93f5ebfb"
    else sampleTools.sha256 content
  int s := if s = "1" then some 1 else sampleTools.int s
  tar content :=
    if content = [116, 97, 114] then ([⟨"chromium/LICENSE", [35]⟩, ⟨"chromium/base/bits.h", [47, 47]⟩], true)
    else ([], false)

def archiveSection : Section where
  name := "chromium"
  options := [("url", "https://archives.example/chromium.tar"), ("download_filename", "chromium.tar"),
    ("sha256", "90aebae315675cbf04612de4f7d5874850f48e0b8dd82becbeaa47ca93f5ebfb"),
    ("output_path", "src"), ("strip_leading_dirs", "1")]

def archiveDisk : Disk where
  cache file := if file = "chromium.tar" then some [116, 97, 114] else (sampleDisk [97, 98, 99]).cache file
  build place := if place = .extracted "src" "base/bits.h" then some [47] else none

theorem sample_unpack_fills :
    let sections := [sampleSection, archiveSection]
    let d' := ((unpack archiveTools sections).run archiveDisk).2
    Filled archiveTools sections d' (.copied "filters/list.txt") ∧
      Filled archiveTools sections d' (.extracted "src" "LICENSE") ∧
      Filled archiveTools sections d' (.extracted "src" "base/bits.h") := by
  intro sections d'
  obtain ⟨-, hfilled⟩ := unpack_fills archiveTools sections archiveDisk (by decide +kernel)
  have hfile := hfilled sampleSection List.mem_cons_self "filters.txt" [97, 98, 99] rfl rfl
  have harchive := hfilled archiveSection (by simp [sections]) "chromium.tar" [116, 97, 114] rfl rfl
  have hmember : ∀ name member data, (⟨member, data⟩ : Member) ∈ (archiveTools.tar [116, 97, 114]).1 →
      memberName 1 member = .ok (some name) → Filled archiveTools sections d' (.extracted "src" name) :=
    fun _ _ _ hm hname => harchive _ _ (.extracted rfl rfl (by decide +kernel) hm hname)
  refine ⟨hfile _ _ (.copied rfl rfl), ?_, ?_⟩
  · exact hmember "LICENSE" _ _ List.mem_cons_self (by decide +kernel)
  · exact hmember "base/bits.h" _ _ (List.mem_cons_of_mem _ List.mem_cons_self) (by decide +kernel)

end T3dmium.Fetch
