import GroupAssessmentAgent.World

/-!
# Stored attachments

An attachment is stored under a generated name in one of the stage directories.
-/

namespace GroupAssessmentAgent
open Prog

structure StorageSettings where
  incoming : Text
  processing : Text
  completed : Text
  failed : Text

def joinPath (dir name : Text) : Text := cat [dir, "/", name]

/-- `Path(path).name`. -/
def pathName (path : Text) : Text := (path.reverse.takeWhile (· != '/')).reverse

def saveIncoming (out : Outside) (content : Bytes) (originalFilename incomingDir : Text) : M Text :=
  atomic .writeFile fun w =>
    let safeName := orText (out.secureFilename originalFilename) "attachment"
    let path := joinPath incomingDir (cat [out.uuid w.uuids, "_", safeName])
    (.ok path, { w with files := w.files.upsert ⟨path, content⟩, uuids := w.uuids + 1 })

def moveTo (path targetDir : Text) : M Text :=
  atomic .moveFile fun w =>
    let dest := joinPath targetDir (pathName path)
    match w.files.find? path with
    | some f => (.ok dest, { w with files := (w.files.erase path).upsert ⟨dest, f.content⟩ })
    | none => (.error ⟨.osError, cat ["[Errno 2] No such file or directory: '", path, "'"]⟩, w)

/-- `Path(path).exists()`. -/
def fileExists (path : Text) : M Bool := observe .checkFile fun w => (w.files.find? path).isSome

end GroupAssessmentAgent
