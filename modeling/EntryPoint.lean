import EntryPoint.ClassFile.Reading.Lemmas
import EntryPoint.ClassFile.Structure
import EntryPoint.FileSystem.Lemmas
import EntryPoint.Main
import EntryPoint.Proofs.ClassFile.Reads
import EntryPoint.Proofs.ClassFile.Words
import EntryPoint.Proofs.ClassFile.Constants
import EntryPoint.Proofs.ClassFile.Annotations
import EntryPoint.Proofs.ClassFile.Grammar
import EntryPoint.Proofs.Manifest.Folding
import EntryPoint.Proofs.Manifest.RoundTrip
import EntryPoint.Proofs.FileSystem.Paths
import EntryPoint.Proofs.FileSystem.Walking
import EntryPoint.Proofs.Manifest.Storage
import EntryPoint.Proofs.Emission
import EntryPoint.Proofs.ClassName
import EntryPoint.Proofs.Lookup
import EntryPoint.Proofs.Candidates
import EntryPoint.Proofs.Selection
import EntryPoint.Proofs.ClassFile.Extension
import EntryPoint.Proofs.ClassFile.Truncation
import EntryPoint.Proofs.ClassFilePath
import EntryPoint.Proofs.Discovery
import EntryPoint.Proofs.ReadBack
import EntryPoint.Proofs.TextOrder
import EntryPoint.Proofs.Loading
import EntryPoint.Proofs.ClassFile.Inspection
import EntryPoint.Proofs.ClassFile.Marking
import EntryPoint.Proofs.Ownership
import EntryPoint.Proofs.Nomination
import EntryPoint.Proofs.FileSystem.Linkless
import EntryPoint.Proofs.Rerun
import EntryPoint.Proofs.FileSystem.Changes
import EntryPoint.Proofs.Manifest.WriteThrough
import EntryPoint.Proofs.Manifest.Interruption
import EntryPoint.ClassFile.Indexed
import EntryPoint.Proofs.ClassFile.Safety
import EntryPoint.Proofs.FileSystem.Directories
import EntryPoint.Proofs.Layout
import EntryPoint.Proofs.Interchange
import EntryPoint.Proofs.Text.Utf8
import EntryPoint.Proofs.Text.Utf16
import EntryPoint.Proofs.Text.ModifiedUtf8
import EntryPoint.Proofs.Printing
import EntryPoint.Proofs.Commands
import EntryPoint.Proofs.ClassFile.Nesting
import EntryPoint.Proofs.SelectionOrder
import EntryPoint.Manifest.Cutting
import EntryPoint.Proofs.Manifest.LineRules
import EntryPoint.Proofs.Manifest.Cutting
import EntryPoint.Proofs.Manifest.Headers
import EntryPoint.Proofs.NameRoundTrip
import EntryPoint.Proofs.FirstHit
import EntryPoint.Proofs.FileSystem.PathOrder
import EntryPoint.Proofs.ScanOrder
import EntryPoint.Proofs.RootSpelling
import EntryPoint.Proofs.Arguments
import EntryPoint.Proofs.Settings
import EntryPoint.Proofs.ClassFile.Slots
import EntryPoint.Proofs.ClassFile.Counting
