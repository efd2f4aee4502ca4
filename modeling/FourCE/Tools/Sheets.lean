import FourCE.Tools.Sandbox

/-!
# Writing a copy of a workbook

`write_sheet` of `tools/sheets.py`, up to what openpyxl does with the workbook: the checks on the
changes, the lookup of the source and the application of the changes are the host's.  A preview ends
before anything is written.
-/

namespace FourCE.Tools

open FourCE.Python

/-- A spreadsheet found by `_source`. -/
structure SheetSource where
  name : PyStr
  bytes : Bytes

/-- What `_apply` returns: the copy, what was done, and the new cells' values. -/
structure SheetCopy where
  payload : Bytes
  notes : List PyStr
  preview : PyStr

/-- `_Refused`, or any other exception of `_apply`. -/
inductive ApplyError
  | refused (message : PyStr)
  | failed (message : PyStr)
  deriving DecidableEq, Repr

/-- The workspace, openpyxl and the file store, as one call finds them. -/
structure SheetHost (F : Type) where
  /-- Why one of the changes is refused before the source is looked for. -/
  refusal : List (Json F) → Option PyStr
  /-- `_source(file, files)`. -/
  source : PyStr → Except PyStr SheetSource
  /-- Where the copy goes, relative to the workspace, or why nowhere. -/
  target : SheetSource → Except PyStr PyStr
  /-- `_apply`. -/
  apply : SheetSource → List (Json F) → Except ApplyError SheetCopy
  /-- Whether the copy can be written. -/
  write : PyStr → Except PyStr Unit
  /-- Where an earlier copy was kept. -/
  kept : PyStr → Option PyStr
  /-- `_register`: the link to the copy, or nothing. -/
  link : Bytes → PyStr
  /-- The number of the audit trail's entry, if one was made. -/
  entry : Option ℕ

section

variable {F : Type} (host : SheetHost F)

/-- `Path(target).stem`. -/
def stemOf (target : PyStr) : PyStr :=
  let name := fileName target
  match name.reverse.dropWhile (· ≠ 46) with
  | _ :: rest => if rest.isEmpty then name else rest.reverse
  | [] => name

def noteLines (notes : List PyStr) : PyStr := join [10] (notes.map fun n ↦ py "- " ++ n)

/-- What a preview returns. -/
def previewText (source : SheetSource) (target : PyStr) (copy : SheetCopy) : PyStr :=
  py "On approval, 4CE writes a copy of `" ++ source.name ++ py "` as `" ++ target ++
    py "` in the workspace; the file itself is not changed.\n\n" ++ noteLines copy.notes ++
    (if copy.preview.isEmpty then []
      else py "\n\nWhat the new cells will give, as Excel calculates them:\n\n" ++ copy.preview)

/-- What a write returns. -/
def writtenText (source : SheetSource) (target : PyStr) (copy : SheetCopy) (link : PyStr) : PyStr :=
  py "**Excel workbook** · " ++ stemOf target ++ py " · " ++
    natText (max 1 (copy.payload.length / 1024)) ++ py " KB, stored on this machine" ++
    (if link.isEmpty then [] else py " · [Download .xlsx](" ++ link ++ py ")") ++
    py "\n\nWritten to `" ++ target ++ py "` in the workspace" ++
    (match host.kept target with
      | some kept => py "; the earlier copy kept as `" ++ kept ++ py "`"
      | none => []) ++
    py ". The source, `" ++ source.name ++ py "`, was not changed" ++
    (match host.entry with
      | some n => py "; audit trail entry " ++ natText n
      | none => []) ++
    py ".\n\n" ++ noteLines copy.notes ++
    (if copy.preview.isEmpty then []
      else py "\n\nWhat the new cells give, as Excel will calculate them:\n\n" ++ copy.preview)

/-- The writing of a copy, and its registration for the user. -/
def writeCopy (source : SheetSource) (target : PyStr) (copy : SheetCopy) (user : Option PyStr) :
    Except PyStr PyStr × List FileEffect :=
  match host.write target with
  | .error why => (.error why, [])
  | .ok () =>
    let link := if user.isSome then host.link copy.payload else []
    let registered := match user with
      | some id => if link.isEmpty then [] else [FileEffect.registered id (fileName target) copy.payload]
      | none => []
    (.ok (writtenText host source target copy link), .wroteWorkbook target copy.payload :: registered)

/-- `write_sheet(changes, file)`, on the list the text of `changes` holds. -/
def writeSheet (changes : List (Json F)) (file : PyStr) (preview : Bool) (user : Option PyStr) :
    Except PyStr PyStr × List FileEffect :=
  if changes.isEmpty then (.ok (py "No changes were given; nothing was written."), [])
  else match host.refusal changes with
    | some why => (.ok why, [])
    | none => match host.source file with
      | .error why => (.ok why, [])
      | .ok source => match host.target source with
        | .error why => (.ok why, [])
        | .ok target => match host.apply source changes with
          | .error (.refused why) => (.ok (why ++ py " Nothing was written."), [])
          | .error (.failed why) => (.ok (py "`" ++ source.name ++ py "` could not be changed: " ++ why ++
              py ". Nothing was written."), [])
          | .ok copy =>
            if preview then (.ok (previewText source target copy), [])
            else writeCopy host source target copy user

/-- A preview writes nothing. -/
theorem writeSheet_preview_files (changes : List (Json F)) (file : PyStr) (user : Option PyStr) :
    (writeSheet host changes file true user).2 = [] := by
  unfold writeSheet
  split
  · rfl
  split
  · rfl
  split
  · rfl
  split
  · rfl
  split <;> rfl

end

end FourCE.Tools
