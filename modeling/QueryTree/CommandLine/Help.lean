import QueryTree.CommandLine.Arguments
/-!
The texts that help shows. Options stand one to a line with what they do beside them; a command with an option
whose values have texts of their own also has a detailed form, in which what they do stands below them.
-/

namespace QueryTree.CommandLine

def programName : String :=
  "qframe"

def version : String :=
  "0.1.0"

def aligned (gap : String) (rows : List (String × String)) : List String :=
  let width := rows.foldl (fun w r => max w r.1.length) 0
  let fill (name : String) := String.ofList (List.replicate (width - name.length) ' ')
  rows.map fun r => r.1 ++ fill r.1 ++ gap ++ r.2

def lines (ls : List String) : String :=
  String.join (ls.map (· ++ "\n"))

def listing (heading : String) (rows : List (String × String)) : String :=
  "\n" ++ heading ++ ":\n" ++ lines ((aligned "  " rows).map ("  " ++ ·))

def detailedListing (heading : String) (rows : List (String × List (List String))) : String :=
  let paragraph (ls : List String) := lines (ls.map ("          " ++ ·))
  let row (r : String × List (List String)) := "  " ++ r.1 ++ "\n" ++ "\n".intercalate (r.2.map paragraph)
  "\n" ++ heading ++ ":\n" ++ "\n".intercalate (rows.map row)

namespace Switch

def usage (s : Switch) : String :=
  let short := match s.short with
    | some c => .ofList ['-', c, ',', ' ']
    | none => "    "
  let value := match s.value with
    | some v => " <" ++ v ++ ">"
    | none => ""
  short ++ "--" ++ s.long ++ value

def usualText (s : Switch) : Option String :=
  s.usual.map fun v => "[default: " ++ v ++ "]"

def summary (s : Switch) : String :=
  let choices := if s.choices.isEmpty then none
    else some ("[possible values: " ++ ", ".intercalate (s.choices.map Prod.fst) ++ "]")
  " ".intercalate (s.about :: s.usualText.toList ++ choices.toList)

def details (s : Switch) : List (List String) :=
  let usual := s.usualText.toList.flatMap fun t => ["", t]
  if s.choices.isEmpty then [s.about :: usual]
  else
    let choices := (aligned " " (s.choices.map fun c => (c.1 ++ ":", c.2))).map ("- " ++ ·)
    [[s.about], "Possible values:" :: choices ++ usual]

end Switch

def helpName : String :=
  "-h, --help"

def helpCommandAbout : String :=
  "Print this message or the help of the given subcommand(s)"

def programHelp : String :=
  programName ++ " - build SQL from declarative query documents\n\nUsage: " ++ programName ++ " <COMMAND>\n"
    ++ listing "Commands" (CommandName.all.map (fun c => (c.name, c.about)) ++ [("help", helpCommandAbout)])
    ++ listing "Options" [(helpName, "Print help"), ("-V, --version", "Print version")]

def helpHelp : String :=
  helpCommandAbout ++ "\n\nUsage: " ++ programName ++ " help [COMMAND]...\n"
    ++ listing "Arguments" [("[COMMAND]...", "Print help for the subcommand(s)")]

namespace CommandName

def hasDetails (c : CommandName) : Bool :=
  c.switches.any fun s => !s.choices.isEmpty

def helpAbout (c : CommandName) (detailed : Bool) : String :=
  if !c.hasDetails then "Print help"
  else if detailed then "Print help (see a summary with '-h')"
  else "Print help (see more with '--help')"

def usage (c : CommandName) : String :=
  let required := String.join (c.required.map fun s => " --" ++ s.long ++ " <" ++ s.value.getD "" ++ ">")
  programName ++ " " ++ c.name ++ " [OPTIONS]" ++ required ++ " <FILE>"

def help (c : CommandName) (detailed : Bool) : String :=
  c.about ++ "\n\nUsage: " ++ c.usage ++ "\n"
    ++ if c.hasDetails && detailed then
      detailedListing "Arguments" [("<FILE>", [[c.fileAbout]])]
        ++ detailedListing "Options" (c.switches.map (fun s => (s.usage, s.details))
          ++ [(helpName, [[c.helpAbout detailed]])])
    else
      listing "Arguments" [("<FILE>", c.fileAbout)]
        ++ listing "Options" (c.switches.map (fun s => (s.usage, s.summary)) ++ [(helpName, c.helpAbout detailed)])

end CommandName

def Topic.text (topic : Topic) (detailed : Bool) : String :=
  match topic with
  | .program => programHelp
  | .help => helpHelp
  | .command c => c.help detailed

end QueryTree.CommandLine
