import T3dmium.UrlText

/-! `urllib.parse`: how a URL falls into its components and a query into its fields. -/
namespace T3dmium

/-- The two components of `urlparse` the handlers read. -/
structure ParsedUrl where
  path : String
  query : String
  deriving DecidableEq, Repr

/-- The components of `urlsplit`; nothing here reads a fragment. -/
structure SplitResult where
  scheme : String
  netloc : String
  path : String
  query : String
  deriving DecidableEq, Repr

namespace Urllib

/-- What comes before the first separator and what comes after it. -/
def partition (sep : Char) (cs : List Char) : List Char × List Char :=
  (cs.takeWhile (· != sep), (cs.dropWhile (· != sep)).drop 1)

/-- Leading control characters and spaces go, and so do tabs and newlines anywhere. -/
def clean (url : List Char) : List Char :=
  (url.dropWhile fun c => decide (c.toNat ≤ 32)).filter fun c => decide (c ∉ ['\t', '\r', '\n'])

def isSchemeChar (c : Char) : Bool := c.isAlphanum || ['+', '-', '.'].contains c

def splitScheme (url : List Char) : List Char × List Char :=
  let scheme := url.takeWhile (· != ':')
  if url.contains ':' && scheme.head?.any Char.isAlpha && scheme.all isSchemeChar then
    (scheme.map Char.toLower, url.drop (scheme.length + 1))
  else ([], url)

def isNetlocChar (c : Char) : Bool := c != '/' && c != '?' && c != '#'

def splitNetloc : List Char → List Char × List Char
  | '/' :: '/' :: url => (url.takeWhile isNetlocChar, url.dropWhile isNetlocChar)
  | url => ([], url)

/-- `checkNetloc` raises on brackets that hold no IP address and on characters that
normalise to a delimiter. -/
def checkHost (checkNetloc : String → Except PyError Unit) (netloc : List Char) : Except PyError Unit :=
  if netloc = [] then .ok () else checkNetloc (.ofList netloc)

def urlsplit (checkNetloc : String → Except PyError Unit) (url : String) :
    Except PyError SplitResult := do
  let s := splitScheme (clean url.toList)
  let n := splitNetloc s.2
  checkHost checkNetloc n.1
  let p := partition '?' (partition '#' n.2).1
  .ok ⟨.ofList s.1, .ofList n.1, .ofList p.1, .ofList p.2⟩

def usesParams : List String :=
  ["", "ftp", "hdl", "prospero", "http", "imap", "https", "shttp", "rtsp", "rtsps", "rtspu", "sip",
    "sips", "mms", "sftp", "tel"]

/-- `_splitparams` without the parameters: they start at the first `;` of the last segment. -/
def dropParams (path : List Char) : List Char :=
  path.rdropWhile (· != '/') ++ (path.rtakeWhile (· != '/')).takeWhile (· != ';')

def urlparse (checkNetloc : String → Except PyError Unit) (url : String) :
    Except PyError ParsedUrl := do
  let s ← urlsplit checkNetloc url
  .ok ⟨if s.scheme ∈ usesParams then .ofList (dropParams s.path.toList) else s.path, s.query⟩

/-- One field of a query; a field without a value is dropped. -/
def queryField (decode : Bytes → String) (field : List Char) : Option (String × String) :=
  let p := partition '=' field
  if p.2 = [] then none else some (unquotePlus decode p.1, unquotePlus decode p.2)

def parseQsl (decode : Bytes → String) (qs : String) : List (String × String) :=
  (qs.toList.splitOn '&').filterMap (queryField decode)

/-- `parsed_result[name].append(value)`, or a new entry. -/
def addField (d : List (String × List String)) (p : String × String) : List (String × List String) :=
  if (d.lookup p.1).isSome then d.map fun q => if q.1 = p.1 then (q.1, q.2 ++ [p.2]) else q
  else d ++ [(p.1, [p.2])]

def parseQs (decode : Bytes → String) (qs : String) : List (String × List String) :=
  (parseQsl decode qs).foldl addField []

/-! Components -/

lemma partition_append {sep : Char} {cs : List Char} (h : sep ∉ cs) (r : List Char) :
    partition sep (cs ++ sep :: r) = (cs, r) := by
  have hne : ∀ c ∈ cs, (c != sep) = true := by
    intro c hc
    have hcs : c ≠ sep := fun he => h (he ▸ hc)
    simpa using hcs
  rw [partition, List.takeWhile_append_of_pos hne, List.dropWhile_append_of_pos hne]
  simp

lemma partition_of_notMem {sep : Char} {cs : List Char} (h : sep ∉ cs) :
    partition sep cs = (cs, []) := by
  have hne : ∀ c ∈ cs, (c != sep) = true := by
    intro c hc
    have hcs : c ≠ sep := fun he => h (he ▸ hc)
    simpa using hcs
  rw [partition, List.takeWhile_eq_self_iff.mpr hne, List.dropWhile_eq_nil_iff.mpr hne]
  rfl

lemma notMem_partition (sep : Char) (cs : List Char) : sep ∉ (partition sep cs).1 := by
  intro h
  simpa using List.mem_takeWhile_imp h

lemma clean_of_printable {url : List Char} (h : ∀ c ∈ url, 32 < c.toNat) : clean url = url := by
  have hdrop : url.dropWhile (fun c => decide (c.toNat ≤ 32)) = url := by
    cases url with
    | nil => rfl
    | cons c url =>
      have hc := h c List.mem_cons_self
      rw [List.dropWhile_cons_of_neg]
      simpa using hc
  rw [clean, hdrop, List.filter_eq_self]
  intro c hc
  have hprint := h c hc
  simp only [decide_eq_true_eq, List.mem_cons, List.not_mem_nil, or_false]
  rintro (rfl | rfl | rfl)
  · exact absurd hprint (by decide)
  · exact absurd hprint (by decide)
  · exact absurd hprint (by decide)

lemma dropParams_of_notMem {path : List Char} (h : ';' ∉ path) : dropParams path = path := by
  have hne : ∀ c ∈ path.rtakeWhile (· != '/'), (c != ';') = true := by
    intro c hc
    have hcs : c ≠ ';' := fun he => h (he ▸ (List.rtakeWhile_suffix _ _).subset hc)
    simpa using hcs
  rw [dropParams, List.takeWhile_eq_self_iff.mpr hne]
  exact List.rdropWhile_append_rtakeWhile

lemma mem_of_mem_dropParams {path : List Char} {c : Char} (h : c ∈ dropParams path) : c ∈ path := by
  rcases List.mem_append.mp h with h | h
  · exact (List.rdropWhile_prefix _ _).subset h
  · exact (List.rtakeWhile_suffix _ _).subset ((List.takeWhile_prefix _).subset h)

lemma notMem_path {checkNetloc : String → Except PyError Unit} {url : String} {parsed : ParsedUrl}
    (h : urlparse checkNetloc url = .ok parsed) : '?' ∉ parsed.path.toList := by
  obtain ⟨s, hs, h⟩ := bind_eq_ok.mp h
  have hpath : '?' ∉ s.path.toList := by
    simp only [urlsplit, bind_eq_ok] at hs
    obtain ⟨_, -, hs⟩ := hs
    cases hs
    rw [String.toList_ofList]
    exact notMem_partition _ _
  cases h
  simp only
  split_ifs
  · rw [String.toList_ofList]
    exact fun hmem => hpath (mem_of_mem_dropParams hmem)
  · exact hpath

lemma urlsplit_rooted (checkNetloc : String → Except PyError Unit) {c : Char} {url : List Char}
    (hc : c ≠ '/') (hprint : ∀ d ∈ c :: url, 32 < d.toNat) (hfrag : '#' ∉ c :: url) :
    urlsplit checkNetloc (.ofList ('/' :: c :: url)) =
      .ok ⟨"", "", .ofList (partition '?' ('/' :: c :: url)).1,
        .ofList (partition '?' ('/' :: c :: url)).2⟩ := by
  have hclean : clean ('/' :: c :: url) = '/' :: c :: url := by
    refine clean_of_printable fun d hd => ?_
    rcases List.mem_cons.mp hd with rfl | hd
    · decide
    · exact hprint d hd
  have hscheme : splitScheme ('/' :: c :: url) = ([], '/' :: c :: url) := by
    simp [splitScheme]
  have hnetloc : splitNetloc ('/' :: c :: url) = ([], '/' :: c :: url) := by
    simp [splitNetloc, hc]
  have hrest : partition '#' ('/' :: c :: url) = ('/' :: c :: url, []) :=
    partition_of_notMem (by simpa using hfrag)
  simp only [urlsplit, String.toList_ofList, hclean, hscheme, hnetloc, hrest]
  rfl

lemma urlparse_rooted (checkNetloc : String → Except PyError Unit) {c : Char} {path query : List Char}
    (hc : c ≠ '/') (hprint : ∀ d ∈ c :: path ++ query, 32 < d.toNat)
    (hfrag : '#' ∉ c :: path ++ query) (hmark : '?' ∉ c :: path) (hparam : ';' ∉ c :: path) :
    urlparse checkNetloc (.ofList ('/' :: c :: path ++ '?' :: query)) =
      .ok ⟨.ofList ('/' :: c :: path), .ofList query⟩ := by
  have hp : partition '?' ('/' :: c :: (path ++ '?' :: query)) = ('/' :: c :: path, query) := by
    have hnot : '?' ∉ '/' :: c :: path := by simpa using hmark
    exact partition_append hnot query
  have hprint' : ∀ d ∈ c :: (path ++ '?' :: query), 32 < d.toNat := by
    intro d hd
    by_cases hq : d = '?'
    · subst hq
      decide
    · exact hprint d (by simpa [hq] using hd)
  have hs := urlsplit_rooted checkNetloc hc hprint' (by simpa using hfrag)
  rw [hp] at hs
  have hpath : dropParams ('/' :: c :: path) = '/' :: c :: path :=
    dropParams_of_notMem (by simpa using hparam)
  simp only [urlparse, List.cons_append, hs, bind, Except.bind, String.toList_ofList, hpath]
  rfl

lemma urlparse_path (checkNetloc : String → Except PyError Unit) {c : Char} {path : List Char}
    (hc : c ≠ '/') (hprint : ∀ d ∈ c :: path, 32 < d.toNat) (hfrag : '#' ∉ c :: path)
    (hmark : '?' ∉ c :: path) (hparam : ';' ∉ c :: path) :
    urlparse checkNetloc (.ofList ('/' :: c :: path)) = .ok ⟨.ofList ('/' :: c :: path), ""⟩ := by
  have hp : partition '?' ('/' :: c :: path) = ('/' :: c :: path, []) :=
    partition_of_notMem (by simpa using hmark)
  have hs := urlsplit_rooted checkNetloc hc hprint hfrag
  rw [hp] at hs
  have hpath : dropParams ('/' :: c :: path) = '/' :: c :: path :=
    dropParams_of_notMem (by simpa using hparam)
  simp only [urlparse, hs, bind, Except.bind, String.toList_ofList, hpath]
  rfl

/-! Fields -/

section
variable {decode : Bytes → String}

/-- What a field name may be spelled with to stand for itself. -/
def isNameChar (c : Char) : Bool := c != '=' && c != '%' && c != '+'

lemma mem_name {name : List Char} (h : name.all isNameChar = true) {c : Char} (hc : c ∈ name) :
    c ≠ '=' ∧ c ≠ '%' ∧ c ≠ '+' := by
  have hall := List.all_eq_true.mp h c hc
  simp only [isNameChar, Bool.and_eq_true, bne_iff_ne] at hall
  exact ⟨hall.1.1, hall.1.2, hall.2⟩

lemma queryField_plain (hdecode : ∀ s, decode (encodeUtf8 s) = s) {name value : List Char}
    (hn : name.all isNameChar = true) (hv : ∀ c ∈ value, c ≠ '%' ∧ c ≠ '+')
    (hne : value ≠ []) :
    queryField decode (name ++ '=' :: value) = some (.ofList name, .ofList value) := by
  rw [queryField, partition_append fun h => (mem_name hn h).1 rfl]
  simp only [if_neg hne, unquotePlus_plain hdecode fun c hc => (mem_name hn hc).2,
    unquotePlus_plain hdecode hv]

lemma queryField_quoted (hdecode : ∀ s, decode (encodeUtf8 s) = s) {name : List Char} {value : String}
    (hn : name.all isNameChar = true) (hne : value ≠ "") :
    queryField decode (name ++ '=' :: (percentQuote value).toList) = some (.ofList name, value) := by
  have hvalue : (percentQuote value).toList ≠ [] := by simpa using percentQuote_ne_empty hne
  rw [queryField, partition_append fun h => (mem_name hn h).1 rfl]
  simp only [if_neg hvalue, unquotePlus_plain hdecode fun c hc => (mem_name hn hc).2,
    unquotePlus_percentQuote hdecode]

lemma parseQsl_field {field : List Char} {item : String × String} (h : '&' ∉ field)
    (hf : queryField decode field = some item) : parseQsl decode (.ofList field) = [item] := by
  rw [parseQsl, String.toList_ofList, List.splitOn_eq_singleton h]
  simp [hf]

lemma parseQsl_cons {field query : List Char} {item : String × String} (h : '&' ∉ field)
    (hf : queryField decode field = some item) :
    parseQsl decode (.ofList (field ++ '&' :: query)) = item :: parseQsl decode (.ofList query) := by
  rw [parseQsl, String.toList_ofList, List.splitOn_append_cons_self_of_not_mem h,
    List.filterMap_cons_some hf, parseQsl, String.toList_ofList]

end

end Urllib
end T3dmium
