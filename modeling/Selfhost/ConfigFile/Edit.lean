import Selfhost.ConfigFile.Schema

/-!
# Edits of the configuration file

`foundation/config/src/edit.rs`: what is added is rendered as a block, and the block comes behind the text as it is.
-/

namespace Selfhost.ConfigFile

open Selfhost.Lib Selfhost.Lib.Toml

/-- The `toml` crate: its reader, and its encoder of strings. -/
structure Crate extends Reader where
  quote : Str → Str

inductive EditError where
  /-- `Config::parse` refuses a text. -/
  | unparsed
  | invalid (field message : Str)
  deriving DecidableEq, Repr

/-! ## Rendering -/

section

variable (T : Crate)

def quoteArray (values : List Str) : Str := '[' :: (", ".toList.intercalate (values.map T.quote) ++ [']'])

/-- A line that gives a key a value. -/
def assignment (key value : Str) : Str := key ++ " = ".toList ++ value

def Exposure.word : Exposure → Str
  | .Public => "public".toList
  | .People => "people".toList
  | .Private => "private".toList

/-- A line that is written only when there is something to write. -/
def lineIf (condition : Bool) (line : Str) : List Str := if condition then [line] else []

def instanceLines (instance_ : Instance) : List Str :=
  [[], "[[sites.instances]]".toList, assignment "node".toList (T.quote instance_.node),
    assignment "port".toList (natText instance_.port.toNat)]

def healthLines (health : Health) : List Str :=
  if health = Health.default then []
  else
    [[], "[sites.health]".toList, assignment "path".toList (T.quote health.path),
      assignment "interval_secs".toList (natText health.intervalSecs.toNat),
      assignment "timeout_secs".toList (natText health.timeoutSecs.toNat),
      assignment "unhealthy_after".toList (natText health.unhealthyAfter.toNat),
      assignment "healthy_after".toList (natText health.healthyAfter.toNat)]

/-- The keys of a site; `allowed_cidrs`, `console` and `relay` are not among them. -/
def siteLines (site : Site) : List Str :=
  [assignment "name".toList (T.quote site.name), assignment "domains".toList (quoteArray T site.domains)] ++
    (site.staticRoot.toList.map fun root => assignment "static_root".toList (T.quote (fromUtf8Lossy root))) ++
    lineIf site.spa "spa = true".toList ++
    lineIf (!site.appPaths.isEmpty) (assignment "app_paths".toList (quoteArray T site.appPaths)) ++
    lineIf (!site.canonicalRedirect) "canonical_redirect = false".toList ++
    lineIf (!site.publicApiPaths.isEmpty) (assignment "public_api_paths".toList (quoteArray T site.publicApiPaths)) ++
    (site.exposure.toList.map fun exposure => assignment "exposure".toList (T.quote exposure.word)) ++
    (site.owner.toList.map fun owner => assignment "owner".toList (T.quote owner))

def blockText (lines : List Str) : Str := lines.flatMap fun line => line ++ ['\n']

def renderSiteBlock (site : Site) : Str :=
  blockText (["[[sites]]".toList] ++ siteLines T site ++ site.instances.flatMap (instanceLines T) ++
    healthLines T site.health)

def renderMailboxBlock (mailbox : Mailbox) : Str :=
  blockText (["[[mail.mailboxes]]".toList, assignment "address".toList (T.quote mailbox.address),
    assignment "password_hash".toList (T.quote mailbox.passwordHash)] ++
    lineIf (!mailbox.aliases.isEmpty) (assignment "aliases".toList (quoteArray T mailbox.aliases)))

/-- A block behind a source, after a blank line. -/
def appended (source block : Str) : Str :=
  let text := if source.getLast? = some '\n' then source else source ++ ['\n']
  (if text.all isWhitespace then text else text ++ ['\n']) ++ block

/-! ## Adding -/

variable (S : Schema)

def addSite (source : Str) (site : Site) : Except EditError Str :=
  match parseConfig T.toReader S source with
  | none => .error .unparsed
  | some _ =>
      let text := appended source (renderSiteBlock T site)
      match parseConfig T.toReader S text with
      | none => .error .unparsed
      | some _ => .ok text

def addMailbox (source : Str) (mailbox : Mailbox) : Except EditError Str :=
  match parseConfig T.toReader S source with
  | none => .error .unparsed
  | some config =>
      match config.mail with
      | none => .error (.invalid mailKey
          "no [mail] section — configure hostname and domains before adding a mailbox".toList)
      | some _ =>
          let text := appended source (renderMailboxBlock T mailbox)
          match parseConfig T.toReader S text with
          | none => .error .unparsed
          | some _ => .ok text

end

end Selfhost.ConfigFile
