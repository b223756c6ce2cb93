/-
The address bar of an HTML surface (`crates/tasty-utils/src/
html_address.rs`): what it shows of a local file, and what a text that is
submitted leads to. The `url` crate and the paths of the platform are
parameters.
-/
import Mathlib.Data.List.Infix
import Tasty.Memory.Base64

namespace Tasty.Html

open Memory (trim isWhitespace)

/-- What the module uses of `url` and of `std::path`. -/
structure Locators (Url Path : Type) where
  parse : String → Option Url
  asStr : Url → String
  scheme : Url → String
  hostStr : Url → Option String
  query : Url → Option String
  fragment : Url → Option String
  join : Url → String → Option Url
  toFilePath : Url → Option Path
  fromFilePath : Path → Option Url
  path : String → Path
  toStringLossy : Path → String
  stripPrefix : Path → Path → Option Path
  isEmpty : Path → Bool
  isAbsolute : Path → Bool
  joinPath : Path → Path → Path
  parent : Path → Option Path

inductive AddressError where
  | empty
  | noBase
  | invalid
  | unsupportedScheme
  deriving DecidableEq

structure AddressTarget (Url Path : Type) where
  url : Url
  localPath : Option Path
  deriving DecidableEq

section Model

variable {Url Path : Type} (lib : Locators Url Path)

def display (t : AddressTarget Url Path) (home : Option Path) : String :=
  match t.localPath with
  | none => lib.asStr t.url
  | some path =>
    let text :=
      match home.bind (lib.stripPrefix path) with
      | none => lib.toStringLossy path
      | some relative =>
        if lib.isEmpty relative then "~"
        else "~/" ++ lib.toStringLossy relative
    let text := ((lib.query t.url).map (text ++ "?" ++ ·)).getD text
    ((lib.fragment t.url).map (text ++ "#" ++ ·)).getD text

def target (url : Url) : Except AddressError (AddressTarget Url Path) :=
  if (lib.scheme url = "http" ∨ lib.scheme url = "https")
      ∧ (lib.hostStr url).isSome then .ok ⟨url, none⟩
  else if lib.scheme url = "file" then
    match lib.toFilePath url with
    | some path => .ok ⟨url, some path⟩
    | none => .error .invalid
  else .error .unsupportedScheme

/-- `local`. -/
def localFile (path : Path) : Except AddressError (AddressTarget Url Path) :=
  match lib.fromFilePath path with
  | some url => target lib url
  | none => .error .invalid

def joined (base : Url) (input : String) :
    Except AddressError (AddressTarget Url Path) :=
  match lib.join base input with
  | some url => target lib url
  | none => .error .invalid

/-- The current document, where the input is what is shown of it. -/
def current (input : String) (document : Option String)
    (home : Option Path) : Option (AddressTarget Url Path) := do
  let url ← lib.parse (← document)
  let current ← (target lib url).toOption
  if current.localPath.isSome ∧ display lib current home = input then
    some current
  else none

/-- `char::is_control`. -/
def isControl (c : Char) : Bool :=
  c.toNat ≤ 0x1F || (0x7F ≤ c.toNat && c.toNat ≤ 0x9F)

def resolveHtmlAddress (input : String) (document : Option String)
    (cwd home : Option Path) : Except AddressError (AddressTarget Url Path) :=
  let input := trim input
  if input = "" then .error .empty
  else if input.toList.any isControl then .error .invalid
  else
    match current lib input document home with
    | some current => .ok current
    | none =>
      if input = "~" ∨ ['~', '/'] <+: input.toList then
        match home with
        | some home =>
          let rest := String.ofList (input.toList.drop 2)
          localFile lib (lib.joinPath home (lib.path rest))
        | none => .error .noBase
      else if lib.isAbsolute (lib.path input) then
        localFile lib (lib.path input)
      else
        match lib.parse input with
        | some url => target lib url
        | none =>
          if [':', '/', '/'] <:+: input.toList then .error .invalid
          else
            match document.filter (· ≠ "") with
            | some document =>
              match lib.parse document with
              | none => .error .invalid
              | some base =>
                if lib.scheme base = "http" ∨ lib.scheme base = "https" then
                  joined lib base input
                else if lib.scheme base = "file" then
                  if input.toList.head? = some '#'
                      ∨ input.toList.head? = some '?' then
                    joined lib base input
                  else
                    match lib.toFilePath base with
                    | none => .error .invalid
                    | some file =>
                      match lib.parent file with
                      | none => .error .noBase
                      | some folder =>
                        localFile lib (lib.joinPath folder (lib.path input))
                else .error .unsupportedScheme
            | none =>
              match cwd.filter lib.isAbsolute with
              | some cwd => localFile lib (lib.joinPath cwd (lib.path input))
              | none => .error .noBase

end Model

/-- What is relied on: a URL is read back from its text, and the path of a
file has a text. -/
structure Locators.Lawful {Url Path : Type} (lib : Locators Url Path) :
    Prop where
  parse_asStr : ∀ url, lib.parse (lib.asStr url) = some url
  text_ne : ∀ url path, lib.toFilePath url = some path →
    lib.toStringLossy path ≠ ""

/-- Nothing that `trim` takes off, and no control characters. -/
structure Plain (text : String) : Prop where
  head : ∀ c ∈ text.toList.head?, isWhitespace c = false
  last : ∀ c ∈ text.toList.getLast?, isWhitespace c = false
  uncontrolled : ∀ c ∈ text.toList, isControl c = false

theorem trim_of_plain {text : String} (h : Plain text) : trim text = text := by
  have hdrop : ∀ l : List Char, (∀ c ∈ l.head?, isWhitespace c = false) →
      l.dropWhile isWhitespace = l := by
    intro l hl
    cases l with
    | nil => rfl
    | cons c l =>
      exact List.dropWhile_cons_of_neg (by simp [hl c rfl])
  have hlast : ∀ c ∈ text.toList.reverse.head?, isWhitespace c = false := by
    rw [List.head?_reverse]
    exact h.last
  rw [trim, hdrop _ h.head, hdrop _ hlast, List.reverse_reverse,
    String.ofList_toList]

variable {Url Path : Type} {lib : Locators Url Path}

theorem display_ne {t : AddressTarget Url Path} {path : Path}
    (hlocal : t.localPath = some path) (hpath : lib.toStringLossy path ≠ "")
    (home : Option Path) : display lib t home ≠ "" := by
  have hcat : ∀ (text : String) (mark : String) (part : Option String),
      text ≠ "" → (part.map (text ++ mark ++ ·)).getD text ≠ "" := by
    intro text mark part htext
    cases part with
    | none => exact htext
    | some part => simp [htext]
  unfold display
  rw [hlocal]
  refine hcat _ "#" _ (hcat _ "?" _ ?_)
  split
  · exact hpath
  · split
    · decide
    · simp

/-- A local target that is shown in plain text is submitted as itself. -/
theorem resolve_display (hlib : lib.Lawful) {t : AddressTarget Url Path}
    {path : Path} (htarget : target lib t.url = .ok t)
    (hlocal : t.localPath = some path) (cwd home : Option Path)
    (hplain : Plain (display lib t home)) :
    resolveHtmlAddress lib (display lib t home) (some (lib.asStr t.url)) cwd
      home = .ok t := by
  have hmine : current lib (display lib t home) (some (lib.asStr t.url)) home
      = some t := by
    unfold current
    simp only [Option.bind_eq_bind, Option.bind_some, hlib.parse_asStr,
      htarget, Except.toOption, hlocal, Option.isSome_some, and_self, if_true]
  have hpath : lib.toFilePath t.url = some path := by
    have hurl := htarget
    unfold target at hurl
    split at hurl
    · rw [← Except.ok.inj hurl] at hlocal
      cases hlocal
    · split at hurl
      · split at hurl
        · rename_i hfile
          rw [hfile, ← hlocal, ← Except.ok.inj hurl]
        · cases hurl
      · cases hurl
  have hcontrol : (display lib t home).toList.any isControl = false :=
    List.any_eq_false.2 fun c hc => by simp [hplain.uncontrolled c hc]
  unfold resolveHtmlAddress
  rw [trim_of_plain hplain, if_neg (display_ne hlocal
    (hlib.text_ne t.url path hpath) home), hcontrol, hmine]
  rfl

-- ==== a file whose name ends with a space

/-- The URLs of two files. -/
def twoFiles : Locators Bool String where
  parse text :=
    if text = "file:///a%20" then some true
    else if text = "file:///a" then some false
    else none
  asStr url := if url then "file:///a%20" else "file:///a"
  scheme _ := "file"
  hostStr _ := none
  query _ := none
  fragment _ := none
  join _ _ := none
  toFilePath url := some (if url then "/a " else "/a")
  fromFilePath path :=
    if path = "/a " then some true
    else if path = "/a" then some false
    else none
  path := id
  toStringLossy := id
  stripPrefix _ _ := none
  isEmpty path := path = ""
  isAbsolute path := path.toList.head? = some '/'
  joinPath base path := base ++ "/" ++ path
  parent _ := some "/"

theorem twoFiles_lawful : twoFiles.Lawful where
  parse_asStr := by decide
  text_ne url path h := by
    cases h
    revert url
    decide

theorem resolve_display_a :
    resolveHtmlAddress twoFiles "/a" (some "file:///a") none none
      = .ok ⟨false, some "/a"⟩ := by
  have hchars : "/a".toList = ['/', 'a'] := by decide
  have hplain : Plain "/a" := by
    constructor <;> simp [hchars, isControl] <;> decide
  exact resolve_display twoFiles_lawful (t := ⟨false, some "/a"⟩) rfl rfl none
    none hplain

/-- The space is trimmed away before the text is compared. -/
theorem trailing_space_lost : ¬ ∀ (t : AddressTarget Bool String)
    (path : String) (cwd home : Option String), target twoFiles t.url = .ok t →
    t.localPath = some path → resolveHtmlAddress twoFiles
      (display twoFiles t home) (some (twoFiles.asStr t.url)) cwd home
      = .ok t := by
  intro h
  have hspace := h ⟨true, some "/a "⟩ "/a " none none rfl rfl
  revert hspace
  decide

end Tasty.Html
