import Stencil.Template.Delimiter

/-!
# Settings — Basics

The delimiters of each kind of directive, and the name under which a template sees its data.  A
kind without a delimiter does not occur.  Without a name for the data, a template sees the members
of its data by their own names.
-/

namespace Stencil

/-- The settings of a template. -/
structure Settings where
  escape : Option Delimiter
  interpolate : Option Delimiter
  evaluate : Option Delimiter
  dataName : Option String

namespace Settings

/-- The settings that hold where none are given. -/
def standard : Settings :=
  ⟨some (.standard .escape), some (.standard .interpolate), some (.standard .evaluate), none⟩

/-- The delimiter of a kind. -/
def delimiter (settings : Settings) : Directive → Option Delimiter
  | .escape => settings.escape
  | .interpolate => settings.interpolate
  | .evaluate => settings.evaluate

/-- The settings with the delimiter of a kind replaced. -/
def withDelimiter (settings : Settings) (kind : Directive) (delimiter : Option Delimiter) :
    Settings :=
  match kind with
  | .escape => { settings with escape := delimiter }
  | .interpolate => { settings with interpolate := delimiter }
  | .evaluate => { settings with evaluate := delimiter }

/-- The delimiter of a kind as it is written. -/
def source (settings : Settings) (kind : Directive) : Option String :=
  (settings.delimiter kind).map Delimiter.source

/-- Whether two settings are written alike. -/
def sameSources (a b : Settings) : Bool :=
  Directive.all.all (fun kind => a.source kind == b.source kind) && a.dataName == b.dataName

/-- The first directive of a kind at or after a place. -/
def find (settings : Settings) (kind : Directive) (place : Place) : Option Hit :=
  (settings.delimiter kind).bind fun delimiter => delimiter.pattern.find? place

end Settings

end Stencil
