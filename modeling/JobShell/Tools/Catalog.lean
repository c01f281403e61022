import JobShell.Scripting.Interpreter
import JobShell.System.World
import JobShell.Tools.Condition
import JobShell.Tools.Edit.Run
import JobShell.Tools.Dump
import JobShell.Tools.Fields
import JobShell.Tools.Attributes
import JobShell.Tools.Batches
import JobShell.Tools.Listing
import JobShell.Tools.Moving
import JobShell.Tools.Paths
import JobShell.Tools.Removing
import JobShell.Tools.Selection
import JobShell.Tools.Sequence
import JobShell.Tools.Sorting
import JobShell.Tools.Streams
import JobShell.Tools.Translate
import JobShell.Tools.Words

/-!
# The installed programs

Each program by its name, with the library it loads first.
-/

namespace JobShell.Catalog

def utility (main : List Bytes → Util UInt8) (library : String := "libc.so.6") (onLoss : UInt8 := 1) :
    Installed :=
  { image := Util.image onLoss main, library := Bytes.ofString library }

def utilities : Table String Installed :=
  [("[", utility Condition.bracket), ("basename", utility Words.basename),
   ("cat", utility Streams.cat), ("chmod", utility Attributes.chmod),
   ("cp", utility Moving.cp "libselinux.so.1"), ("cut", utility Fields.cut),
   ("dirname", utility Words.dirname), ("echo", utility Words.echo),
   ("egrep", utility (Selection.grepWith "-E") "libc.so.6" 2),
   ("env", utility Words.env "libc.so.6" 125), ("false", utility Words.refuse),
   ("fgrep", utility (Selection.grepWith "-F") "libc.so.6" 2),
   ("grep", utility Selection.grep "libpcre2-8.so.0" 2), ("head", utility Streams.head),
   ("ln", utility Moving.ln), ("ls", utility Listing.ls "libselinux.so.1" 2),
   ("mkdir", utility Attributes.mkdir "libselinux.so.1"), ("mv", utility Moving.mv "libselinux.so.1"),
   ("nl", utility Fields.nl), ("od", utility Dump.od), ("paste", utility Fields.paste),
   ("printenv", utility Words.printenv "libc.so.6" 2), ("printf", utility Words.printf),
   ("pwd", utility Words.pwd), ("readlink", utility Paths.readlink),
   ("realpath", utility Paths.realpath), ("rm", utility Removing.rm), ("rmdir", utility Removing.rmdir),
   ("sed", utility Edit.sed "libacl.so.1" 4), ("seq", utility Sequence.seq),
   ("sh", { image := Scripting.Interpreter.image }),
   ("sleep", utility Words.sleep), ("sort", utility Sorting.sort "libcrypto.so.3" 2),
   ("tac", utility Streams.tac), ("tail", utility Streams.tail), ("tee", utility Streams.tee),
   ("test", utility Condition.test), ("touch", utility Attributes.touch), ("tr", utility Translate.tr),
   ("true", utility Words.succeed), ("uniq", utility Sorting.uniq), ("wc", utility Streams.wc),
   ("xargs", utility Batches.xargs), ("yes", utility Words.yes)]

end JobShell.Catalog
