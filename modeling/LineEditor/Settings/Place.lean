import LineEditor.Settings.Basic

/-!
# Where the settings come from

One file is chosen, without regard to what is in it: the one that was asked for, or else the one in
the working directory if it is there, or else the one in the user's directory of settings. If it
cannot be read, or does not hold settings, the defaults are in effect; no other file is tried.
-/

namespace LineEditor

/-- The path of a file. -/
abbrev Path := List Char

/-- A path inside a directory. -/
def Path.join (directory name : Path) : Path :=
  if directory.getLast? = some '/' then directory ++ name else directory ++ '/' :: name

namespace Settings

/-- The name of the file of settings. -/
def fileName : Path := "termline.toml".toList

/-- What the choice of the file depends on. -/
structure Place where
  /-- The path that was asked for. -/
  given? : Option Path := none
  /-- Whether the working directory has a file of settings. -/
  isLocal : Bool := false
  /-- The directory of the user's settings, if one is set. -/
  settingsHome? : Option Path := none
  /-- The home directory, if one is set. -/
  home? : Option Path := none
  deriving DecidableEq, Repr

/-- The directory of the user's settings, which must be an absolute path where it is set. -/
def Place.directory? (p : Place) : Option Path :=
  match p.settingsHome?.filter (·.head? = some '/') with
  | some directory => some directory
  | none => (p.home?.filter (!·.isEmpty)).map (Path.join · ".config".toList)

/-- The file that is read. -/
def Place.file (p : Place) : Path :=
  match p.given? with
  | some path => path
  | none =>
    if p.isLocal then fileName
    else
      match p.directory? with
      | some directory => Path.join (Path.join directory "termline".toList) fileName
      | none => fileName

/-- Settings and the file that they came from, if they are not the defaults. -/
structure Loaded where
  /-- The file. -/
  source? : Option Path := none
  /-- The settings. -/
  settings : Settings := {}
  deriving DecidableEq, Repr

/-- The settings that a file gives, whose content is absent if it cannot be read. -/
def load (path : Path) (content? : Option (List UInt8)) : Loaded :=
  match content?.bind ofBytes? with
  | some settings => { source? := some path, settings }
  | none => {}

/-- What a program finds around it. -/
structure Surroundings where
  /-- The files that can be read. -/
  files : Path → Option (List UInt8)
  /-- The directory of the user's settings, if one is set. -/
  settingsHome? : Option Path := none
  /-- The home directory, if one is set. -/
  home? : Option Path := none

/-- The settings that a program finds, which may be asked for those of a certain file. -/
def find (s : Surroundings) (given? : Option Path) : Loaded :=
  let place : Place :=
    { given?
      isLocal := (s.files fileName).isSome
      settingsHome? := s.settingsHome?
      home? := s.home? }
  load place.file (s.files place.file)

end Settings

end LineEditor
