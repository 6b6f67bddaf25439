import QueryTree.Settings.Basic
import QueryTree.Sql.Squash
/-!
Formatting of SQL text. Where a formatter starts a line is its own affair, as long as it changes nothing but blanks and
the case of letters.
-/

namespace QueryTree.Sql

structure FormatOptions where
  joinsAsTopLevel : Bool
  indent : UInt8
  uppercase : Bool
  linesBetweenQueries : UInt8

def FormatOptions.ofSettings (settings : LayoutSettings) : FormatOptions where
  joinsAsTopLevel := true
  indent := settings.indent
  uppercase := settings.uppercase
  linesBetweenQueries := 1

class Formatter where
  format (options : FormatOptions) (sql : String) : String
  squash_format (options : FormatOptions) (sql : String) : squash (format options sql) = squash sql

section

variable [Formatter]

def layout (settings : LayoutSettings) (sql : String) : String :=
  if !settings.enabled || sql.isEmpty then sql else Formatter.format (.ofSettings settings) sql

theorem squash_layout (settings : LayoutSettings) (sql : String) : squash (layout settings sql) = squash sql := by
  unfold layout
  split
  · rfl
  · exact Formatter.squash_format ..

end

end QueryTree.Sql
