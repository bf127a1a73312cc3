import SimTerm.Boot.Log
import SimTerm.Display
import SimTerm.Key.Layout
import SimTerm.Line
import SimTerm.Main
import SimTerm.Proofs.FileSystem.Atomic
import SimTerm.Proofs.FileSystem.Refinement
import SimTerm.Proofs.FileSystem.RefusedLoad
import SimTerm.Proofs.Line.Scan
import SimTerm.Proofs.Node.StoredText
import SimTerm.Proofs.Shell.Captures
import SimTerm.Proofs.Terminal.Output
import SimTerm.Scene
import SimTerm.Settings.Document
import SimTerm.Shell.Recipe
import SimTerm.Storage.Directory
import SimTerm.Terminal
import SimTerm.Proofs.Commands.Ordinary
import SimTerm.Proofs.Commands.Script
import SimTerm.Proofs.Shell.Course
import SimTerm.Proofs.Session.Log
import SimTerm.Proofs.Shell.Budget
import SimTerm.Proofs.Shell.Nesting
import SimTerm.Proofs.Terminal.Input
import SimTerm.Proofs.Session.InStep
import SimTerm.Proofs.Terminal.InStep
import SimTerm.Proofs.FileSystem.Contents
import SimTerm.Proofs.Text.Unbroken
import SimTerm.Proofs.Session.SingleLine
import SimTerm.Proofs.Shell.SingleLine
import SimTerm.Proofs.Terminal.SingleLine
import SimTerm.Proofs.Commands.BackOut
import SimTerm.Proofs.Shell.Sequence
import SimTerm.Proofs.Line.Written
import SimTerm.Proofs.Session.Zipper
import SimTerm.Proofs.Session.Steady
import SimTerm.Proofs.Terminal.AcceptsInput
import SimTerm.Proofs.Path.Canonical
import SimTerm.Proofs.Terminal.Canonical
import SimTerm.Proofs.FileSystem.Names
import SimTerm.Proofs.Storage.Directory
import SimTerm.Proofs.FileSystem.Reopening
import SimTerm.Proofs.Session.Bounds
import SimTerm.Proofs.Display
import SimTerm.Proofs.Path.Resolution
import SimTerm.Proofs.Session.Printing
import SimTerm.Proofs.FileSystem.Walks
import SimTerm.Proofs.Text.LineEdit
import SimTerm.Proofs.Commands.Write
import SimTerm.Proofs.Path.Relative
import SimTerm.Proofs.Commands.ChangeDir
import SimTerm.Proofs.FileSystem.OnePath
import SimTerm.Proofs.Node.Extensional
import SimTerm.Proofs.FileSystem.Apart
import SimTerm.Proofs.FileSystem.Moments
import SimTerm.Proofs.History
import SimTerm.Proofs.Screen.Resizing
import SimTerm.Proofs.Terminal.Reboot
import SimTerm.Proofs.Terminal.Typing
import SimTerm.Proofs.Boot.Log
import SimTerm.Proofs.Path.Segments
