import MyIPNG.Http.Server
import MyIPNG.Utils.Splitting

/-!
# What an HTTP request can open

The handler puts the URL of the first line behind `./www`, with a separator between them, unless the
URL has two dots in a row or a tilde. So the names of the path behind `./www` are never `..`, and
the path stays inside of the document root when it is normalised (`normalise_localFile`).

The first line is what stands in front of the first line end of all that the client sends, however
it was cut (`parseRequest_of_receive`): the chunks that were taken are a beginning of it that has
the line end. `openedPaths_process` puts this together: a request opens the path of its first line
or nothing.
-/

set_option autoImplicit false
set_option relaxedAutoImplicit false

namespace MyIPNG.Http

open Utils
open Gopher (slash cStr)

/-! ### What is said about a request -/

/-- The paths that are given to `open`. -/
def openedPaths (events : List HttpEvent) : List (List UInt8) :=
  events.filterMap fun event ↦
    match event with
    | .openCall path => some path
    | _ => none

/-- A step of the normalisation of a path: an empty name and `.` are dropped, and `..` takes away
the name in front of it. -/
def normaliseStep (names : List (List UInt8)) (name : List UInt8) : List (List UInt8) :=
  if name = [] ∨ name = ascii "." then names
  else if name = ascii ".." ∧ names ≠ [] ∧ names.getLast? ≠ some (ascii "..") then names.dropLast
  else names ++ [name]

theorem ascii_slash_nonempty : ascii "/" ≠ [] := by decide

/-- The names of a relative path after its lexical normalisation. -/
def normalise (path : List UInt8) : List (List UInt8) :=
  (split path ⟨ascii "/", ascii_slash_nonempty⟩).foldl normaliseStep []

/-- The first line of what a client sends. -/
def firstLine (stream : List UInt8) : List UInt8 :=
  match find (ascii "\r\n") stream with
  | some pos => stream.take pos
  | none => stream

/-- Three parts with a space between them, the first of which is the method `GET`. -/
def IsGet (line : List UInt8) : Prop :=
  ∃ url version, 32 ∉ url ∧ 32 ∉ version ∧ line = ascii "GET" ++ 32 :: (url ++ 32 :: version)

/-- The path that is opened for a first line. -/
def pathOf (line : List UInt8) : Option (List UInt8) :=
  match parseRequestLine line with
  | .url url =>
    if url = [] ∨ find (ascii "..") url ≠ none ∨ find (ascii "~") url ≠ none then none
    else some (cStr (httpBasePath ++ rewriteUrl url))
  | _ => none

/-! ### What is opened -/

section Opened

variable (environment : Environment)

@[simp] theorem openedPaths_nil : openedPaths [] = [] := rfl

@[simp] theorem openedPaths_openCall (path : List UInt8) (events : List HttpEvent) :
    openedPaths (.openCall path :: events) = path :: openedPaths events := rfl

@[simp] theorem openedPaths_sent (bytes : List UInt8) (events : List HttpEvent) :
    openedPaths (.sent bytes :: events) = openedPaths events := rfl

@[simp] theorem openedPaths_fin (events : List HttpEvent) :
    openedPaths (.fin :: events) = openedPaths events := rfl

@[simp] theorem openedPaths_append (first second : List HttpEvent) :
    openedPaths (first ++ second) = openedPaths first ++ openedPaths second :=
  List.filterMap_append

@[simp] theorem openedPaths_refusal (which : ℕ) (message : List UInt8) :
    openedPaths (refusal environment which message) = [] := by
  unfold refusal
  split_ifs <;> simp

theorem openedPaths_sendLoop (turn : ℕ) (content : List UInt8) (length : ℕ) :
    openedPaths (sendLoop environment turn content length) = [] := by
  induction turn, content, length using sendLoop.induct environment with
  | case1 => rw [sendLoop, if_pos rfl, openedPaths_nil]
  | case2 turn content length hlength hstopped =>
    rw [sendLoop, if_neg hlength, if_pos hstopped, openedPaths_nil]
  | case3 turn content length hlength hstopped hshort =>
    rw [sendLoop, if_neg hlength, if_neg hstopped, if_pos hshort, openedPaths_nil]
  | case4 turn content length hlength hstopped hshort ih =>
    rw [sendLoop, if_neg hlength, if_neg hstopped, if_neg hshort, openedPaths_sent, ih]

theorem openedPaths_sendFile (url : List UInt8) (file : OpenedFile) :
    openedPaths (sendFile environment url file) = [] := by
  unfold sendFile
  split
  · exact openedPaths_refusal _ _ _
  · split_ifs
    · rw [openedPaths_sent, openedPaths_sendLoop]
    · rfl

theorem openedPaths_serveUrl (url : List UInt8) : openedPaths (serveUrl environment url) =
    if url = [] ∨ find (ascii "..") url ≠ none ∨ find (ascii "~") url ≠ none then []
    else [cStr (httpBasePath ++ rewriteUrl url)] := by
  unfold serveUrl
  by_cases hempty : url = []
  · rw [if_pos hempty, if_pos (Or.inl hempty), openedPaths_refusal]
  · rw [if_neg hempty]
    split_ifs with hinvalid hnone hnone
    · exact openedPaths_refusal _ _ _
    · exact absurd (Or.inr hinvalid) hnone
    · exact absurd hnone (by simp [hempty, hinvalid])
    · rw [openedPaths_openCall]
      split
      · rw [openedPaths_refusal]
      · rw [openedPaths_sendFile]

end Opened

/-! ### Where the path leads -/

section Paths

/-- What a function that takes a `char *` sees of a path whose beginning has no end in it. -/
theorem cStr_append {front : List UInt8} (h : 0 ∉ front) (back : List UInt8) :
    cStr (front ++ back) = front ++ cStr back := by
  refine List.takeWhile_append_of_pos fun byte hbyte ↦ decide_eq_true ?_
  rintro rfl
  exact h hbyte

/-- A pattern that a text does not have does not come into what is put behind the base path: the
rewritten URL is a separator and a text without the pattern. Assumes: the pattern is not in the name
of the index. -/
theorem exists_rewriteUrl {url : List UInt8} (patterns : List (List UInt8))
    (hpatterns : ∀ pattern ∈ patterns, ¬ pattern <:+: url)
    (hindex : ∀ pattern ∈ patterns, ¬ pattern <:+: ascii "index.html") :
    ∃ rest, rewriteUrl url = slash :: rest ∧ ∀ pattern ∈ patterns, ¬ pattern <:+: rest := by
  unfold rewriteUrl
  split_ifs with hroot hslash
  · exact ⟨ascii "index.html", by decide +kernel, hindex⟩
  · exact ⟨url, rfl, hpatterns⟩
  · obtain ⟨byte, rest, rfl⟩ : ∃ byte rest, url = byte :: rest := by
      cases url with
      | nil => exact absurd (by simp) hslash
      | cons byte rest => exact ⟨byte, rest, rfl⟩
    obtain rfl : byte = slash := by simpa using hslash
    exact ⟨rest, rfl, fun pattern hpattern hin ↦ hpatterns pattern hpattern
      (hin.trans (List.suffix_cons _ _).isInfix)⟩

/-- The path that is opened: the base path, a separator, and a text without two dots in a row and
without a tilde. -/
theorem exists_localFile {url : List UInt8} (hdots : find (ascii "..") url = none)
    (htilde : find (ascii "~") url = none) :
    ∃ rest, cStr (httpBasePath ++ rewriteUrl url) = httpBasePath ++ slash :: rest ∧
      ¬ ascii ".." <:+: rest ∧ ¬ ascii "~" <:+: rest := by
  have hpatterns : ∀ pattern ∈ [ascii "..", ascii "~"], ¬ pattern <:+: url := by
    simpa using ⟨find_eq_none_iff.mp hdots, find_eq_none_iff.mp htilde⟩
  obtain ⟨rest, hrewrite, hrest⟩ := exists_rewriteUrl _ hpatterns (by decide +kernel)
  have hbegins : cStr rest <:+: rest := (List.takeWhile_prefix _).isInfix
  have hbase : 0 ∉ httpBasePath ++ [slash] := by decide +kernel
  refine ⟨cStr rest, ?_, fun hin ↦ hrest _ (by simp) (hin.trans hbegins),
    fun hin ↦ hrest _ (by simp) (hin.trans hbegins)⟩
  have hcut := cStr_append hbase rest
  rwa [List.append_assoc, List.append_assoc, List.singleton_append, List.singleton_append,
    ← hrewrite] at hcut

/-- Names that are not `..` take nothing away from those in front of them. -/
theorem foldl_normaliseStep {parts : List (List UInt8)} (h : ascii ".." ∉ parts)
    (names : List (List UInt8)) : ∃ kept, parts.foldl normaliseStep names = names ++ kept ∧
      ∀ name ∈ kept, name ∈ parts := by
  induction parts generalizing names with
  | nil => exact ⟨[], by simp, by simp⟩
  | cons part parts ih =>
    obtain ⟨hpart, hparts⟩ := not_or.mp (List.mem_cons.not.mp h)
    rw [List.foldl_cons, normaliseStep]
    split_ifs with hdropped hdots
    · obtain ⟨kept, hkept, hin⟩ := ih hparts names
      exact ⟨kept, hkept, fun name hname ↦ List.mem_cons_of_mem _ (hin name hname)⟩
    · exact absurd hdots.1.symm hpart
    · obtain ⟨kept, hkept, hin⟩ := ih hparts (names ++ [part])
      refine ⟨part :: kept, by rw [hkept, List.append_assoc, List.singleton_append], ?_⟩
      exact List.forall_mem_cons.mpr ⟨List.mem_cons_self,
        fun name hname ↦ List.mem_cons_of_mem _ (hin name hname)⟩

/-- A path behind the base path stays inside of the document root. -/
theorem normalise_localFile {rest : List UInt8} (h : ¬ ascii ".." <:+: rest) :
    normalise httpBasePath <+: normalise (httpBasePath ++ slash :: rest) ∧
      ascii ".." ∉ normalise (httpBasePath ++ slash :: rest) := by
  by_cases hempty : rest = []
  · subst hempty
    exact ⟨by decide +kernel, by decide +kernel⟩
  have hsplitter : (⟨ascii "/", ascii_slash_nonempty⟩ : Splitter) = ⟨[47], by decide⟩ := by
    decide +kernel
  have hbase : httpBasePath = [46, 47, 119, 119, 119] := by decide +kernel
  have hpath : httpBasePath ++ slash :: rest = [46] ++ 47 :: ([119, 119, 119] ++ 47 :: rest) := by
    rw [hbase]
    rfl
  have hfirst : split ([46] ++ 47 :: ([119, 119, 119] ++ 47 :: rest)) ⟨[47], by decide⟩ =
      [46] :: split ([119, 119, 119] ++ 47 :: rest) ⟨[47], by decide⟩ :=
    split_first (by decide) (List.append_ne_nil_of_left_ne_nil (by decide) _) _
  have hsecond : split ([119, 119, 119] ++ 47 :: rest) ⟨[47], by decide⟩ =
      [119, 119, 119] :: split rest ⟨[47], by decide⟩ := split_first (by decide) hempty _
  have hroot : normalise httpBasePath = [[119, 119, 119]] := by decide +kernel
  have hbegin : normaliseStep (normaliseStep [] [46]) [119, 119, 119] = [[119, 119, 119]] := by
    decide +kernel
  have hparts : ascii ".." ∉ split rest ⟨[47], by decide⟩ := fun hin ↦
    h (infix_of_mem_split rest _ _ hin)
  obtain ⟨kept, hkept, hin⟩ := foldl_normaliseStep hparts [[119, 119, 119]]
  rw [hroot, normalise, hsplitter, hpath, hfirst, hsecond, List.foldl_cons, List.foldl_cons, hbegin,
    hkept]
  refine ⟨List.prefix_append _ _, fun hdots ↦ ?_⟩
  rcases List.mem_append.mp hdots with hwww | hrest
  · exact absurd hwww (by decide +kernel)
  · exact hparts (hin _ hrest)

end Paths

/-! ### The first line -/

section FirstLine

/-- A byte that a text does not have as a pattern is not in it. -/
theorem not_mem_of_not_infix {c : UInt8} {text : List UInt8} (h : ¬ [c] <:+: text) : c ∉ text := by
  intro hc
  obtain ⟨front, back, rfl⟩ := List.append_of_mem hc
  exact h ⟨front, back, by simp⟩

/-- A line that gives a URL has three parts, the first of which is the method `GET`. So `substr`
finds four bytes in front of the URL. -/
theorem isGet_of_parseRequestLine {line url : List UInt8}
    (h : parseRequestLine line = .url url) : IsGet line := by
  have hspace : ascii " " = [32] := by decide +kernel
  have hjoined := intercalate_split line ⟨ascii " ", ascii_space_nonempty⟩
  have hplain := not_infix_of_mem_split line ⟨ascii " ", ascii_space_nonempty⟩
  unfold parseRequestLine at h
  dsimp only at h hjoined hplain
  generalize split line ⟨ascii " ", ascii_space_nonempty⟩ = parts at *
  rw [hspace] at hjoined hplain
  split_ifs at h with hthree hget
  obtain ⟨method, path, version, rfl⟩ := List.length_eq_three.mp (not_not.mp hthree)
  obtain rfl : method = ascii "GET" := by simpa using hget
  refine ⟨path, version, not_mem_of_not_infix (hplain path (by simp)),
    not_mem_of_not_infix (hplain version (by simp)), ?_⟩
  rw [← hjoined, List.intercalate_cons_cons, List.intercalate_cons_cons,
    List.intercalate_singleton]
  simp

/-- The chunks that are taken are a beginning of what comes, and they have an empty line. -/
theorem receiveRequest_spec {chunks : List (List UInt8)} {taken recvBuffer : List UInt8}
    (h : receiveRequest taken chunks = .request recvBuffer) :
    recvBuffer <+: taken ++ chunks.flatten ∧ ascii "\r\n\r\n" <:+: recvBuffer := by
  induction chunks generalizing taken with
  | nil =>
    rw [receiveRequest] at h
    split_ifs at h
  | cons incoming chunks ih =>
    rw [receiveRequest] at h
    split_ifs at h with hlong hnone
    · rw [List.flatten_cons, ← List.append_assoc]
      exact ih h
    · obtain rfl : taken ++ incoming = recvBuffer := by simpa using h
      rw [List.flatten_cons, ← List.append_assoc]
      exact ⟨List.prefix_append _ _, not_not.mp (find_eq_none_iff.not.mp hnone)⟩

/-- The first part of a text that has the splitter. -/
theorem head_split {input : List UInt8} {splitter : Splitter} {pos : ℕ}
    (h : find splitter.text input = some pos) :
    ∃ parts, split input splitter = input.take pos :: parts := by
  rw [split_of_find h]
  split_ifs
  · exact ⟨_, rfl⟩
  · exact ⟨_, rfl⟩

/-- The line that decides is the first line of all that comes. -/
theorem parseRequest_of_receive {chunks : List (List UInt8)} {recvBuffer : List UInt8}
    (h : receiveRequest [] chunks = .request recvBuffer) :
    parseRequest recvBuffer = parseRequestLine (firstLine chunks.flatten) := by
  obtain ⟨hbegins, hend⟩ := receiveRequest_spec h
  rw [List.nil_append] at hbegins
  have hline : ascii "\r\n" <:+: recvBuffer :=
    (List.IsPrefix.isInfix (by decide +kernel)).trans hend
  obtain ⟨pos, hpos⟩ := Option.ne_none_iff_exists'.mp (find_eq_none_iff.not.mpr
    (not_not.mpr (hline.trans hbegins.isInfix)))
  have hbeginning := find_take hpos ascii_crlf_nonempty recvBuffer.length
  rw [← List.prefix_iff_eq_take.mp hbegins] at hbeginning
  split_ifs at hbeginning with hlong
  · obtain ⟨parts, hparts⟩ : ∃ parts, split recvBuffer ⟨ascii "\r\n", ascii_crlf_nonempty⟩ =
        recvBuffer.take pos :: parts := head_split hbeginning
    have hfirst : recvBuffer.take pos = chunks.flatten.take pos := by
      rw [List.prefix_iff_eq_take.mp hbegins, List.take_take, Nat.min_eq_left (by omega)]
    rw [parseRequest, hparts, firstLine, hpos]
    exact congrArg parseRequestLine hfirst
  · exact absurd hline (find_eq_none_iff.mp hbeginning)

end FirstLine

/-! ### The document root -/

/-- A request opens the path of its first line, or nothing when it is too long. -/
theorem openedPaths_process {environment : Environment} {chunks : List (List UInt8)}
    {events : List HttpEvent} (h : processHttpRequest environment chunks = some events) :
    openedPaths events = (pathOf (firstLine chunks.flatten)).toList ∨ openedPaths events = [] := by
  unfold processHttpRequest at h
  cases hreceive : receiveRequest [] chunks with
  | waiting => simp [hreceive] at h
  | tooLong =>
    rw [hreceive] at h
    rw [← Option.some.inj h]
    exact Or.inr rfl
  | request recvBuffer =>
    rw [hreceive] at h
    rw [← Option.some.inj h, openedPaths_append, answerRequest, parseRequest_of_receive hreceive,
      pathOf]
    refine Or.inl ?_
    cases parseRequestLine (firstLine chunks.flatten) with
    | url url =>
      dsimp only
      rw [openedPaths_serveUrl]
      split_ifs <;> rfl
    | refused which message => simp
    | invalid => rfl

/-- An HTTP request opens only paths inside of the document root. Each path is the root, a separator
and a text without two dots in a row and without a tilde, so the normalised path begins with the
root and nothing in it leads out again. A request whose first line is not `GET`, a URL and a version
opens nothing. Two requests with the same first line that open a path open the same one. -/
theorem opens_below_document_root {environment : Environment} {chunks : List (List UInt8)}
    {events : List HttpEvent} (h : processHttpRequest environment chunks = some events) :
    (∀ path ∈ openedPaths events,
      (∃ rest, path = httpBasePath ++ slash :: rest ∧
        ¬ ascii ".." <:+: rest ∧ ¬ ascii "~" <:+: rest) ∧
      normalise httpBasePath <+: normalise path ∧ ascii ".." ∉ normalise path) ∧
    (¬ IsGet (firstLine chunks.flatten) → openedPaths events = []) ∧
    (∀ environment' chunks' events', processHttpRequest environment' chunks' = some events' →
      firstLine chunks'.flatten = firstLine chunks.flatten →
      ∀ path ∈ openedPaths events, ∀ path' ∈ openedPaths events', path' = path) := by
  have hopened : ∀ {environment chunks events},
      processHttpRequest environment chunks = some events → ∀ path ∈ openedPaths events,
        pathOf (firstLine chunks.flatten) = some path := by
    intro environment chunks events h path hpath
    rcases openedPaths_process h with hsome | hnone
    · rw [hsome] at hpath
      exact Option.mem_toList.mp hpath
    · rw [hnone] at hpath
      exact absurd hpath List.not_mem_nil
  refine ⟨fun path hpath ↦ ?_, fun hget ↦ ?_, ?_⟩
  · have hline := hopened h path hpath
    unfold pathOf at hline
    split at hline
    · split_ifs at hline with hrefused
      obtain ⟨-, hvalid⟩ := not_or.mp hrefused
      obtain ⟨hdots, htilde⟩ := not_or.mp hvalid
      obtain ⟨rest, hlocal, hrest, htilde'⟩ := exists_localFile (not_not.mp hdots)
        (not_not.mp htilde)
      obtain rfl : httpBasePath ++ slash :: rest = path := hlocal.symm.trans (Option.some.inj hline)
      exact ⟨⟨rest, rfl, hrest, htilde'⟩, normalise_localFile hrest⟩
    · exact absurd hline (by simp)
  · refine List.eq_nil_iff_forall_not_mem.mpr fun path hpath ↦ hget ?_
    have hline := hopened h path hpath
    unfold pathOf at hline
    split at hline
    · next url hurl => exact isGet_of_parseRequestLine hurl
    · exact absurd hline (by simp)
  · intro environment' chunks' events' h' hsame path hpath path' hpath'
    have hfirst := hopened h path hpath
    have hsecond := hopened h' path' hpath'
    rw [hsame] at hsecond
    exact Option.some.inj (hsecond.symm.trans hfirst)

/-- A request for the root in two chunks, cut inside of its first line, when no file can be
opened. -/
theorem opens_below_document_root_index : ∃ events,
    processHttpRequest ⟨fun _ ↦ none, fun _ ↦ true, fun _ ↦ false⟩
      [ascii "GET / HT", ascii "TP/1.0\r\n\r\n"] = some events ∧
    openedPaths events = [ascii "./www/index.html"] ∧
    ascii ".." ∉ normalise (ascii "./www/index.html") := by
  have hrun : (processHttpRequest ⟨fun _ ↦ none, fun _ ↦ true, fun _ ↦ false⟩
      [ascii "GET / HT", ascii "TP/1.0\r\n\r\n"]).map openedPaths =
        some [ascii "./www/index.html"] := by
    decide +kernel
  obtain ⟨events, hevents, hopened⟩ := Option.map_eq_some_iff.mp hrun
  obtain ⟨hbelow, -, -⟩ := opens_below_document_root hevents
  exact ⟨events, hevents, hopened, (hbelow _ (by rw [hopened]; exact List.mem_cons_self)).2.2⟩

end MyIPNG.Http
