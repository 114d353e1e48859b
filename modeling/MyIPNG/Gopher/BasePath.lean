import Mathlib.Data.List.TakeWhile
import MyIPNG.Gopher.Server

/-!
# What a gopher request can reach

The handler compares the first bytes of a canonical path with the base path. A path inside of the
base directory has a separator behind them; a path that goes on with another byte is that of a
sibling whose name begins like that of the base directory. `reaches_serve_iff` says which paths a
request opens or lists. They are inside of the base directory unless the selector leads to such a
sibling.
-/

set_option autoImplicit false
set_option relaxedAutoImplicit false

namespace MyIPNG.Gopher

open Utils

/-! ### Inside and beside -/

/-- The base directory or something in it. -/
def Inside (basePath path : List UInt8) : Prop :=
  path = basePath ∨ basePath ++ [slash] <+: path

/-- A path that goes on behind the base path with a byte that is not a separator. -/
def LookAlike (basePath path : List UInt8) : Prop :=
  ∃ byte rest, byte ≠ slash ∧ path = basePath ++ byte :: rest

/-- A path that the handler would list or open. -/
def Servable (fs : FileSystem) (path : List UInt8) : Prop :=
  ∃ st, fs.stat path = some st ∧
    ((st.mode &&& sIfdir ≠ 0 ∧ (fs.opendir path).isSome = true) ∨
      (st.mode &&& sIfdir = 0 ∧ st.mode &&& sIfreg ≠ 0 ∧ (fs.openFile path).isSome = true))

/-- A directory is listed or a file is opened. -/
def Reaches (events : List GopherEvent) (path : List UInt8) : Prop :=
  .listed path ∈ events ∨ .opened path ∈ events

/-- All that is listed or opened for a selector has its canonical path inside of the base
directory. -/
def ServesInside (fs : FileSystem) (basePath hostname : List UInt8) (sendOk : ℕ → Bool)
    (selector : List UInt8) : Prop :=
  ∀ path, Reaches (serve fs basePath hostname sendOk selector) path →
    ∃ target, fs.realpath path = some target ∧ Inside basePath target

/-- The canonical path of what a selector names, if there is something. -/
def targetOf (fs : FileSystem) (basePath selector : List UInt8) : Option (List UInt8) :=
  fs.realpath (cStr (basePath ++ ascii "/" ++ selector))

/-- A path that begins with the base path is inside of it or looks like it. -/
theorem lookAlike_iff {basePath path : List UInt8} (hbegin : basePath <+: path) :
    LookAlike basePath path ↔ ¬ Inside basePath path := by
  obtain ⟨rest, rfl⟩ := hbegin
  constructor
  · rintro ⟨byte, rest', hbyte, heq⟩ (hsame | hbelow)
    · rw [hsame] at heq
      simp at heq
    · obtain ⟨behind, hbehind⟩ := hbelow
      rw [heq, List.append_assoc] at hbehind
      have hbytes := List.append_cancel_left hbehind
      exact hbyte (List.cons.inj hbytes).1.symm
  · intro hnot
    cases rest with
    | nil => exact absurd (Or.inl (List.append_nil _)) hnot
    | cons byte rest =>
      refine ⟨byte, rest, ?_, rfl⟩
      rintro rfl
      exact hnot (Or.inr ⟨rest, by rw [List.append_assoc]; rfl⟩)

/-! ### What is reached -/

theorem cStr_of_not_mem {text : List UInt8} (h : 0 ∉ text) : cStr text = text := by
  refine List.takeWhile_eq_self_iff.mpr fun byte hbyte ↦ decide_eq_true ?_
  rintro rfl
  exact h hbyte

/-- A canonical path has no byte that would end it. -/
theorem Canonical.cStr_eq {path : List UInt8} (h : Canonical path) : cStr path = path := by
  refine cStr_of_not_mem ?_
  rcases h with rfl | ⟨names, hnames, -, rfl⟩
  · decide
  · intro hzero
    obtain ⟨name, hname, hmem⟩ := List.mem_flatMap.mp hzero
    rcases List.mem_cons.mp hmem with hslash | hin
    · exact absurd hslash (by decide)
    · exact (hnames name hname).2.2.2.2 hin

theorem Canonical.ne_nil {path : List UInt8} (h : Canonical path) : path ≠ [] := by
  rcases h with rfl | ⟨names, -, hnonempty, rfl⟩
  · decide
  · cases names with
    | nil => exact absurd rfl hnonempty
    | cons name names => simp

theorem not_reaches_nil (path : List UInt8) : ¬ Reaches [] path := by simp [Reaches]

theorem not_reaches_sendLoop (sendOk : ℕ → Bool) (sends : ℕ) (content : List UInt8) (length : ℕ)
    (path : List UInt8) : ¬ Reaches (sendLoop sendOk sends content length) path := by
  induction sends, content, length using sendLoop.induct sendOk with
  | case1 =>
    rw [sendLoop, if_pos rfl]
    exact not_reaches_nil path
  | case2 sends content length hlength hstop =>
    rw [sendLoop, if_neg hlength, if_pos hstop]
    exact not_reaches_nil path
  | case3 sends content length hlength hstop ih =>
    rw [sendLoop, if_neg hlength, if_neg hstop]
    simpa [Reaches] using ih

/-- A menu lists its directory, if there is one. -/
theorem reaches_sendMenu_iff {fs : FileSystem} {basePath relPath hostname path : List UInt8}
    {allowParentDir : Bool} :
    Reaches (sendMenu fs basePath relPath allowParentDir hostname) path ↔
      path = cStr (basePath ++ relPath) ∧ (fs.opendir path).isSome = true := by
  unfold sendMenu Reaches
  cases hdir : fs.opendir (cStr (basePath ++ relPath)) with
  | none =>
    refine iff_of_false (by simp) ?_
    rintro ⟨rfl, hsome⟩
    rw [hdir] at hsome
    exact absurd hsome (by decide)
  | some entries =>
    have hlisted : path = cStr (basePath ++ relPath) → (fs.opendir path).isSome = true := by
      rintro rfl
      rw [hdir]
      rfl
    simpa using hlisted

/-- The root menu is that of the base directory. -/
theorem reaches_serve_nil {fs : FileSystem} {basePath hostname path : List UInt8}
    {sendOk : ℕ → Bool} (h : Reaches (serve fs basePath hostname sendOk []) path) :
    path = cStr basePath := by
  rw [serve, if_pos rfl, reaches_sendMenu_iff, List.append_nil] at h
  exact h.1

theorem servable_iff_of_stat {fs : FileSystem} {path : List UInt8} {st : Stat}
    (hstat : fs.stat path = some st) :
    Servable fs path ↔ (st.mode &&& sIfdir ≠ 0 ∧ (fs.opendir path).isSome = true) ∨
      (st.mode &&& sIfdir = 0 ∧ st.mode &&& sIfreg ≠ 0 ∧ (fs.openFile path).isSome = true) := by
  constructor
  · rintro ⟨other, hother, hserved⟩
    rwa [← Option.some.inj (hother.symm.trans hstat)]
  · exact fun hserved ↦ ⟨st, hstat, hserved⟩

/-- What is reached for a canonical path that begins with the base path: the path itself, when it
can be listed or opened. -/
theorem reaches_servePath_iff {fs : FileSystem} {basePath hostname : List UInt8}
    {sendOk : ℕ → Bool} {target : List UInt8} (hcanonical : Canonical target)
    (hbegin : basePath <+: target) {path : List UInt8} :
    Reaches (servePath fs basePath hostname sendOk target) path ↔
      path = target ∧ Servable fs target := by
  have hnothing := not_reaches_nil path
  have hjoin : basePath ++ target.drop basePath.length = target := by
    obtain ⟨rest, rfl⟩ := hbegin
    rw [List.drop_left]
  unfold servePath
  rw [hcanonical.cStr_eq]
  cases hstat : fs.stat target with
  | none =>
    refine iff_of_false hnothing ?_
    rintro ⟨-, st, hst, -⟩
    exact absurd (hstat.symm.trans hst) (by simp)
  | some st =>
    rw [servable_iff_of_stat hstat]
    dsimp only
    by_cases hdir : st.mode &&& sIfdir ≠ 0
    · rw [if_pos hdir, reaches_sendMenu_iff, hjoin, hcanonical.cStr_eq]
      refine and_congr_right ?_
      rintro rfl
      simp [hdir]
    rw [if_neg hdir]
    have hnotDir : st.mode &&& sIfdir = 0 := not_not.mp hdir
    by_cases hreg : st.mode &&& sIfreg ≠ 0
    · rw [if_pos hreg]
      cases hopen : fs.openFile target with
      | none => exact iff_of_false hnothing (by simp [hnotDir])
      | some content =>
        have hloop := not_reaches_sendLoop sendOk 0 content st.size path
        simp only [Reaches, not_or] at hloop
        simp [Reaches, hloop, hnotDir, hreg]
    · rw [if_neg hreg]
      exact iff_of_false hnothing (by simp [hnotDir, not_not.mp hreg])

/-- What a selector reaches: the path that it names, when that begins with the base path and can be
listed or opened. -/
theorem reaches_serve_iff {fs : FileSystem} {basePath hostname : List UInt8}
    (hbase : basePath ≠ []) {sendOk : ℕ → Bool} {selector : List UInt8} (hselector : selector ≠ [])
    {path : List UInt8} :
    Reaches (serve fs basePath hostname sendOk selector) path ↔
      targetOf fs basePath selector = some path ∧ basePath <+: path ∧ Servable fs path := by
  have hnothing := not_reaches_nil path
  have hserve : serve fs basePath hostname sendOk selector =
      if ((targetOf fs basePath selector).getD []).take basePath.length ≠ basePath then []
      else servePath fs basePath hostname sendOk ((targetOf fs basePath selector).getD []) := by
    rw [serve, if_neg hselector]
    rfl
  rw [hserve]
  cases htarget : targetOf fs basePath selector with
  | none =>
    rw [Option.getD_none, List.take_nil, if_pos hbase.symm]
    exact iff_of_false hnothing (by simp)
  | some target =>
    rw [Option.getD_some, Option.some.injEq]
    by_cases hbegin : basePath <+: target
    · rw [if_neg (not_not.mpr (List.prefix_iff_eq_take.mp hbegin).symm),
        reaches_servePath_iff (fs.canonical htarget) hbegin]
      constructor
      · rintro ⟨rfl, hserved⟩
        exact ⟨rfl, hbegin, hserved⟩
      · rintro ⟨rfl, -, hserved⟩
        exact ⟨rfl, hserved⟩
    · rw [if_pos fun hsame ↦ hbegin (List.prefix_iff_eq_take.mpr hsame.symm)]
      refine iff_of_false hnothing ?_
      rintro ⟨rfl, hother, -⟩
      exact hbegin hother

/-! ### What is served -/

/-- A request serves nothing outside of the base directory if and only if its selector does not lead
to a path that can be listed or opened and that goes on behind the base path with another byte than
the separator. Assumes: the base path is canonical, as `main` makes it. -/
theorem serves_inside_iff (fs : FileSystem) {basePath : List UInt8}
    (hbase : fs.realpath basePath = some basePath) (hostname : List UInt8) (sendOk : ℕ → Bool)
    (selector : List UInt8) :
    ServesInside fs basePath hostname sendOk selector ↔
      selector = [] ∨ ∀ path, targetOf fs basePath selector = some path → Servable fs path →
        ¬ LookAlike basePath path := by
  have hcanonical := fs.canonical hbase
  by_cases hselector : selector = []
  · refine iff_of_true ?_ (Or.inl hselector)
    subst hselector
    intro path hpath
    rw [reaches_serve_nil hpath, hcanonical.cStr_eq]
    exact ⟨basePath, hbase, Or.inl rfl⟩
  rw [or_iff_right hselector]
  constructor
  · rintro hinside path htarget hservable hlike
    have hbegin : basePath <+: path := by
      obtain ⟨byte, rest, -, rfl⟩ := hlike
      exact List.prefix_append _ _
    obtain ⟨target, hreal, hin⟩ := hinside path
      ((reaches_serve_iff hcanonical.ne_nil hselector).mpr ⟨htarget, hbegin, hservable⟩)
    obtain rfl : target = path := Option.some.inj (hreal.symm.trans (fs.idempotent htarget))
    exact (lookAlike_iff hbegin).mp hlike hin
  · intro hnone path hpath
    obtain ⟨htarget, hbegin, hservable⟩ :=
      (reaches_serve_iff hcanonical.ne_nil hselector).mp hpath
    refine ⟨path, fs.idempotent htarget, ?_⟩
    by_contra hout
    exact hnone path htarget hservable ((lookAlike_iff hbegin).mpr hout)

/-! ### Two directories -/

/-- The canonical paths of two directories next to each other. -/
def realpathOfTwo (path : List UInt8) : Option (List UInt8) :=
  if path = ascii "/srv/gopher" ∨ path = ascii "/srv/gopher/." then some (ascii "/srv/gopher")
  else if path = ascii "/srv/gopher2" ∨ path = ascii "/srv/gopher/../gopher2" then
    some (ascii "/srv/gopher2")
  else none

theorem realpathOfTwo_cases {path target : List UInt8} (h : realpathOfTwo path = some target) :
    target = ascii "/srv/gopher" ∨ target = ascii "/srv/gopher2" := by
  unfold realpathOfTwo at h
  split_ifs at h
  · exact Or.inl (Option.some.inj h).symm
  · exact Or.inr (Option.some.inj h).symm

theorem canonical_realpathOfTwo {path target : List UInt8} (h : realpathOfTwo path = some target) :
    Canonical target := by
  rcases realpathOfTwo_cases h with rfl | rfl
  · exact Or.inr ⟨[ascii "srv", ascii "gopher"], by decide, by decide, by decide⟩
  · exact Or.inr ⟨[ascii "srv", ascii "gopher2"], by decide, by decide, by decide⟩

theorem idempotent_realpathOfTwo {path target : List UInt8}
    (h : realpathOfTwo path = some target) : realpathOfTwo target = some target := by
  rcases realpathOfTwo_cases h with rfl | rfl <;> decide

/-- A file system with the two directories, both of them empty. -/
def twoDirectories : FileSystem where
  realpath := realpathOfTwo
  stat path := (realpathOfTwo path).map fun _ ↦ ⟨0x41ed, 4096⟩
  opendir path := (realpathOfTwo path).map fun _ ↦ [(ascii ".", .dir), (ascii "..", .dir)]
  openFile _ := none
  canonical := canonical_realpathOfTwo
  idempotent := idempotent_realpathOfTwo

theorem serves_inside_base : ServesInside twoDirectories (ascii "/srv/gopher") (ascii "localhost")
    (fun _ ↦ true) (ascii ".") := by
  refine (serves_inside_iff twoDirectories (by decide) _ _ _).mpr (Or.inr ?_)
  intro path htarget _ hlike
  obtain rfl : ascii "/srv/gopher" = path := Option.some.inj htarget
  exact (lookAlike_iff List.prefix_rfl).mp hlike (Or.inl rfl)

/-- A directory next to the base directory, with a name that begins like it, is listed. -/
theorem sibling_is_listed : ¬ ServesInside twoDirectories (ascii "/srv/gopher")
    (ascii "localhost") (fun _ ↦ true) (ascii "../gopher2") := by
  intro hinside
  have hservable : Servable twoDirectories (ascii "/srv/gopher2") :=
    ⟨⟨0x41ed, 4096⟩, by decide, Or.inl ⟨by decide, by decide⟩⟩
  obtain ⟨target, hreal, hin⟩ := hinside (ascii "/srv/gopher2")
    ((reaches_serve_iff (by decide) (by decide)).mpr ⟨by decide, by decide, hservable⟩)
  obtain rfl : ascii "/srv/gopher2" = target := Option.some.inj hreal
  exact (lookAlike_iff (by decide)).mp ⟨50, [], by decide, by decide⟩ hin

end MyIPNG.Gopher
